import Palloc.ArenaRun
import Palloc.ArenaSchedule
import Palloc.SegmentModel

/-!
# Arenas and committed memory

`pa_arena_try_alloc_at` marks the blocks that it takes as committed before it
asks the operating system for that, and tells its caller when it is refused.
So the marks of blocks in use may be wrong; those of free blocks are not, since
a block is unmarked when it is freed without being committed, and when a purge
takes its memory away.
-/

namespace Palloc

open BitFields MachineWord

/-! ## Committed ranges -/

def Os.Backs (os : Os) (lo hi : ℕ) : Prop :=
  ∀ a, lo ≤ a → a < hi → os.committed a = true

def Os.Keeps (os os' : Os) : Prop :=
  ∀ a, os.committed a = true → os'.committed a = true

section Backs

variable {os os' os'' : Os} {lo mid hi : ℕ}

theorem Os.Keeps.refl (os : Os) : os.Keeps os := fun _ h => h

theorem Os.Keeps.trans (h : os.Keeps os') (h' : os'.Keeps os'') :
    os.Keeps os'' :=
  fun a ha => h' a (h a ha)

theorem Os.Backs.mono (h : os.Backs lo hi) (hkeeps : os.Keeps os') :
    os'.Backs lo hi :=
  fun a hlo hhi => hkeeps a (h a hlo hhi)

theorem Os.Backs.within {lo' hi' : ℕ} (h : os.Backs lo hi) (hlo : lo ≤ lo')
    (hhi : hi' ≤ hi) : os.Backs lo' hi' :=
  fun a ha ha' => h a (hlo.trans ha) (ha'.trans_le hhi)

theorem Os.commit_keeps (os : Os) (start : Addr) (size : ℕ) :
    os.Keeps (os.commit start size).2.2 := by
  intro a ha
  simp [Os.commit, ha]

theorem Os.commit_backs (start : Addr) (size : ℕ)
    (hok : os.answer.commitOk = true) :
    (os.commit start size).2.2.Backs start (start + size) := by
  intro a hlo hhi
  simp [Os.commit, hok, hlo, hhi]

end Backs

/-! ## Allocation -/

namespace Arena

/-- Block `b` is marked as committed; an arena without marks is always
committed. -/
def marked (arena : Arena) (b : ℕ) : Bool :=
  match arena.blocksCommitted with
  | none => true
  | some map => bit map b

/-- `pa_arena_try_alloc_at` calls `_pa_os_commit_ex` for the blocks. -/
def asksCommit (arena : Arena) (blocks bitmapIdx : ℕ) (commit : Bool) :
    Bool :=
  commit && match arena.blocksCommitted with
    | none => false
    | some map => (bitmapClaimAcross map blocks bitmapIdx).anyZero

/-- `pa_arena_try_alloc_at`, with the answer of the operating system. -/
def tryAllocAtOs (arena : Arena) (os : Os) (neededBcount : ℕ)
    (commit : Bool) : Option (ℕ × ArenaMemid) × Arena × Os :=
  match arena.tryAllocAt neededBcount commit os.answer.commitOk
      os.answer.commitZero with
  | (none, arena') => (none, arena', os)
  | (some (p, memid), arena') =>
      (some (p, memid), arena',
        if arena.asksCommit neededBcount memid.blockIndex commit then
          (os.commit p (neededBcount * arenaBlockSize)).2.2
        else os)

/-- The address lies in block `b`. -/
def InBlock (arena : Arena) (b a : ℕ) : Prop :=
  arena.blockStart b ≤ a ∧ a < arena.blockStart b + arenaBlockSize

/-- Block `b` is committed. -/
def BlockBacked (os : Os) (arena : Arena) (b : ℕ) : Prop :=
  ∀ a : ℕ, arena.InBlock b a → os.committed a = true

theorem exists_inBlock {arena : Arena} {lo count a : ℕ}
    (hlo : arena.blockStart lo ≤ a)
    (hhi : a < arena.blockStart lo + count * arenaBlockSize) :
    ∃ b, lo ≤ b ∧ b < lo + count ∧ arena.InBlock b a := by
  have hpos : 0 < arenaBlockSize := by decide
  unfold InBlock
  unfold blockStart at hlo hhi ⊢
  set b := (a - arena.start) / arenaBlockSize with hb
  have hdiv := Nat.div_add_mod (a - arena.start) arenaBlockSize
  have hmod := Nat.mod_lt (a - arena.start) hpos
  rw [← hb, Nat.mul_comm] at hdiv
  refine ⟨b, ?_, ?_, by omega, by omega⟩
  · rw [hb, Nat.le_div_iff_mul_le hpos]
    omega
  · rw [hb, Nat.div_lt_iff_lt_mul hpos, Nat.add_mul]
    omega

/-- Only pinned memory has no marks, and it is committed; the marks of free
blocks are right. -/
structure Truthful (os : Os) (arena : Arena) : Prop where
  pinned_iff : arena.isPinned = true ↔ arena.blocksCommitted = none
  backed : ∀ b < arena.blockCount,
    arena.isPinned = true ∨ bit arena.blocksInuse b = false →
      arena.marked b = true → arena.BlockBacked os b

structure Granted (os : Os) (arena : Arena) (blocks : ℕ) (commit : Bool)
    (p : ℕ) (memid : ArenaMemid) (arena' : Arena) (os' : Os) : Prop where
  p_eq : p = arena.blockStart memid.blockIndex
  memid_pinned : memid.isPinned = arena.isPinned
  memid_id : memid.arenaId = arena.id
  found : (tryFindFromClaimAcross arena.blocksInuse arena.fieldCount 0
    blocks).1 = some memid.blockIndex
  isPinned_eq : arena'.isPinned = arena.isPinned
  claimed : ∃ inuse,
    arena'.view = { arena.view with blocksInuse := inuse } ∧
      Claimed arena.fieldCount blocks memid.blockIndex arena.blocksInuse inuse
  none_iff : arena'.blocksCommitted = none ↔ arena.blocksCommitted = none
  marked_outside : ∀ b,
    b < memid.blockIndex ∨ memid.blockIndex + blocks ≤ b →
      arena'.marked b = arena.marked b
  keeps : os.Keeps os'
  committed_iff : memid.initiallyCommitted = true ↔
    if commit then arena.asksCommit blocks memid.blockIndex true = false ∨
      os.answer.commitOk = true
    else ∀ b, memid.blockIndex ≤ b → b < memid.blockIndex + blocks →
      arena.marked b = true
  os_eq : os' = if arena.asksCommit blocks memid.blockIndex commit then
      (os.commit p (blocks * arenaBlockSize)).2.2
    else os

end Arena

section Alloc

variable {os os' : Os} {arena arena' : Arena} {blocks bitmapIdx p : ℕ}
variable {commit commitOk : Bool} {memid : ArenaMemid}

theorem Arena.asksCommit_iff :
    arena.asksCommit blocks bitmapIdx true = false ↔
      ∀ b, bitmapIdx ≤ b → b < bitmapIdx + blocks → arena.marked b = true := by
  unfold asksCommit marked
  cases hmap : arena.blocksCommitted with
  | none => simp
  | some map =>
      have hany := (bitmapClaimAcross_spec map blocks bitmapIdx).2.2.1
      rw [← Bool.not_eq_true]
      dsimp only
      rw [Bool.true_and, hany, not_not]
      rfl

/-- What the marks become, and what the caller is told. -/
theorem Arena.commitBlocks_spec (map : Fields) (blocks bitmapIdx : ℕ)
    (commit commitOk : Bool) :
    ∃ map', (commitBlocks (some map) blocks bitmapIdx commit commitOk).2 =
        some map' ∧
      (∀ b, b < bitmapIdx ∨ bitmapIdx + blocks ≤ b → bit map' b = bit map b) ∧
      ((commitBlocks (some map) blocks bitmapIdx commit commitOk).1 = true ↔
        Full map bitmapIdx (bitmapIdx + blocks) ∨
          commit = true ∧ commitOk = true) := by
  have hset := bitmapClaimAcross_spec map blocks bitmapIdx
  have hclear := (bitmapUnclaimAcross_spec map blocks bitmapIdx).1
  have hfull := (bitmapIsClaimedxAcross_spec map blocks bitmapIdx).1
  unfold commitBlocks
  cases commit with
  | true =>
      simp only [if_true, true_and]
      refine ⟨_, rfl, fun b hb => hset.1.outside hb, ?_⟩
      by_cases hall : Full map bitmapIdx (bitmapIdx + blocks)
      · have hany : (bitmapClaimAcross map blocks bitmapIdx).anyZero = false :=
          Bool.eq_false_iff.mpr fun h => hset.2.2.1.mp h hall
        simp [hany, hall]
      · simp [hset.2.2.1.mpr hall, hall]
  | false =>
      simp only [Bool.false_eq_true, if_false, false_and, or_false]
      split
      · exact ⟨_, rfl, fun b hb => hclear.outside hb, hfull⟩
      · exact ⟨_, rfl, fun _ _ => rfl, hfull⟩

/-- An allocation fails without a trace, or is granted. -/
theorem Arena.tryAllocAtOs_spec (arena : Arena) (os : Os) (hpos : 0 < blocks)
    (commit : Bool) :
    (∃ arena', arena.tryAllocAtOs os blocks commit = (none, arena', os) ∧
      arena'.view = arena.view ∧ arena'.isPinned = arena.isPinned ∧
      arena'.blocksCommitted = arena.blocksCommitted) ∨
    ∃ p memid arena' os',
      arena.tryAllocAtOs os blocks commit = (some (p, memid), arena', os') ∧
        Granted os arena blocks commit p memid arena' os' := by
  unfold tryAllocAtOs tryAllocAt tryClaim
  rcases tryFindFromClaimAcross_spec arena.blocksInuse arena.fieldCount 0 hpos
    with ⟨heq, -⟩ | ⟨b, inuse, heq, hclaimed⟩
  · rw [heq]
    exact Or.inl ⟨_, rfl, rfl, rfl, rfl⟩
  rw [heq]
  refine Or.inr ⟨_, _, _, _, rfl, ?_⟩
  refine ⟨rfl, rfl, rfl, by rw [heq], rfl, ⟨inuse, rfl, hclaimed⟩, ?_, ?_,
    ?_, ?_, rfl⟩
  · show (commitBlocks arena.blocksCommitted blocks b commit
      os.answer.commitOk).2 = none ↔ _
    cases hmap : arena.blocksCommitted with
    | none => exact Iff.rfl
    | some map =>
        obtain ⟨map', heq', -, -⟩ :=
          commitBlocks_spec map blocks b commit os.answer.commitOk
        rw [heq']
        simp
  · intro c hc
    show (match (commitBlocks arena.blocksCommitted blocks b commit
      os.answer.commitOk).2 with
      | none => true
      | some map => bit map c) = arena.marked c
    unfold marked
    cases hmap : arena.blocksCommitted with
    | none => rfl
    | some map =>
        obtain ⟨map', heq', houtside, -⟩ :=
          commitBlocks_spec map blocks b commit os.answer.commitOk
        rw [heq']
        exact houtside c hc
  · dsimp only
    split
    · exact os.commit_keeps _ _
    · exact .refl os
  · show (commitBlocks arena.blocksCommitted blocks b commit
      os.answer.commitOk).1 = true ↔ _
    rw [asksCommit_iff]
    unfold marked
    cases hmap : arena.blocksCommitted with
    | none =>
        cases commit <;> simp [commitBlocks]
    | some map =>
        obtain ⟨map', -, -, hfirst⟩ :=
          commitBlocks_spec map blocks b commit os.answer.commitOk
        rw [hfirst]
        cases commit with
        | true => simp [Full]
        | false => simp [Full]

theorem Arena.Granted.backs
    (h : Granted os arena blocks commit p memid arena' os')
    (htrue : arena.Truthful os) (hblocks : memid.blockIndex + blocks ≤
      arena.blockCount) (hok : memid.initiallyCommitted = true) :
    os'.Backs p (p + blocks * arenaBlockSize) := by
  obtain ⟨inuse, -, hclaimed⟩ := h.claimed
  -- blocks that are all marked are committed, as they were free
  have hmarked : (∀ b, memid.blockIndex ≤ b → b < memid.blockIndex + blocks →
      arena.marked b = true) →
        os'.Backs p (p + blocks * arenaBlockSize) := by
    intro hall a hlo hhi
    rw [h.p_eq] at hlo hhi
    obtain ⟨b, hge, hlt, hin⟩ := exists_inBlock hlo hhi
    exact h.keeps a (htrue.backed b (by omega)
      (Or.inr (hclaimed.clear b hge hlt)) (hall b hge hlt) a hin)
  have hcases := h.committed_iff.mp hok
  cases commit with
  | false => exact hmarked hcases
  | true =>
      by_cases hasked : arena.asksCommit blocks memid.blockIndex true = true
      · have hanswer : os.answer.commitOk = true := by
          rcases hcases with hnone | hanswer
          · rw [hnone] at hasked
            cases hasked
          · exact hanswer
        rw [h.os_eq, if_pos hasked]
        exact Os.commit_backs p _ hanswer
      · rw [Bool.not_eq_true] at hasked
        exact hmarked (asksCommit_iff.mp hasked)

end Alloc

/-! ## Purging -/

/-- `_pa_os_purge_ex` needs no flag to tell whether a range has to be
committed again: memory that is only reset never has to. -/
def ArenaEnv.Answers (env : ArenaEnv) (recommit : ℕ → ℕ → Bool) : Prop :=
  ∀ start size allowReset, env.osPurge start size allowReset =
    recommit start size

namespace Arena

/-- The ranges were purged, and some marks were taken away: of every block in a
range that has to be committed again. -/
structure PurgedBy (recommit : ℕ → ℕ → Bool) (ranges : List (ℕ × ℕ))
    (arena arena' : Arena) : Prop where
  start_eq : arena'.start = arena.start
  blockCount_eq : arena'.blockCount = arena.blockCount
  fieldCount_eq : arena'.fieldCount = arena.fieldCount
  isPinned_eq : arena'.isPinned = arena.isPinned
  none_iff : arena'.blocksCommitted = none ↔ arena.blocksCommitted = none
  purged_eq : arena'.purged = arena.purged ++ ranges
  unpinned : arena.blocksCommitted = none → ranges = []
  marked : ∀ b, arena'.marked b = true → arena.marked b = true ∧
    ∀ range ∈ ranges, range.1 ≤ b → b < range.1 + range.2 →
      recommit (arena.blockStart range.1) (range.2 * arenaBlockSize) = false

/-- Only blocks that are free, or that `freed` names, were purged. -/
def Swept (recommit : ℕ → ℕ → Bool) (freed : ℕ → Prop)
    (arena arena' : Arena) : Prop :=
  ∃ ranges, PurgedBy recommit ranges arena arena' ∧
    ∀ b, Covered ranges b → freed b ∨
      b < 64 * arena.fieldCount ∧ bit arena.blocksInuse b = false

end Arena

section Purge

variable {recommit : ℕ → ℕ → Bool} {env : ArenaEnv}
variable {arena arena' arena'' : Arena} {ranges ranges' : List (ℕ × ℕ)}
variable {freed : ℕ → Prop}

theorem Arena.PurgedBy.same (hstart : arena'.start = arena.start)
    (hcount : arena'.blockCount = arena.blockCount)
    (hfields : arena'.fieldCount = arena.fieldCount)
    (hpinned : arena'.isPinned = arena.isPinned)
    (hmarks : arena'.blocksCommitted = arena.blocksCommitted)
    (hpurged : arena'.purged = arena.purged) :
    PurgedBy recommit [] arena arena' where
  start_eq := hstart
  blockCount_eq := hcount
  fieldCount_eq := hfields
  isPinned_eq := hpinned
  none_iff := by rw [hmarks]
  purged_eq := by rw [hpurged, List.append_nil]
  unpinned _ := rfl
  marked b hb := by
    unfold Arena.marked at hb ⊢
    rw [hmarks] at hb
    exact ⟨hb, fun _ h => nomatch h⟩

theorem Arena.PurgedBy.trans (h : PurgedBy recommit ranges arena arena')
    (h' : PurgedBy recommit ranges' arena' arena'') :
    PurgedBy recommit (ranges ++ ranges') arena arena'' where
  start_eq := h'.start_eq.trans h.start_eq
  blockCount_eq := h'.blockCount_eq.trans h.blockCount_eq
  fieldCount_eq := h'.fieldCount_eq.trans h.fieldCount_eq
  isPinned_eq := h'.isPinned_eq.trans h.isPinned_eq
  none_iff := h'.none_iff.trans h.none_iff
  purged_eq := by
    rw [h'.purged_eq, h.purged_eq, List.append_assoc]
  unpinned hnone := by
    rw [h.unpinned hnone, h'.unpinned (h.none_iff.mpr hnone)]
    rfl
  marked b hb := by
    obtain ⟨hmid, hkept'⟩ := h'.marked b hb
    obtain ⟨hfirst, hkept⟩ := h.marked b hmid
    refine ⟨hfirst, ?_⟩
    intro range hrange hlo hhi
    rcases List.mem_append.mp hrange with hrange | hrange
    · exact hkept range hrange hlo hhi
    · have hstart : arena'.blockStart range.1 = arena.blockStart range.1 := by
        unfold blockStart
        rw [h.start_eq]
      rw [← hstart]
      exact hkept' range hrange hlo hhi

theorem Arena.purge_purgedBy (henv : env.Answers recommit)
    (hmarks : arena.blocksCommitted ≠ none) (bitmapIdx blocks : ℕ) :
    PurgedBy recommit [(bitmapIdx, blocks)] arena
      (arena.purge env bitmapIdx blocks) := by
  obtain ⟨map, hmap⟩ := Option.ne_none_iff_exists'.mp hmarks
  have hclears := (bitmapUnclaimAcross_spec map blocks bitmapIdx).1
  have hmarked : ∀ b, (arena.purge env bitmapIdx blocks).marked b =
      if recommit (arena.blockStart bitmapIdx) (blocks * arenaBlockSize) then
        bit (bitmapUnclaimAcross map blocks bitmapIdx).2 b
      else bit map b := by
    intro b
    unfold marked purge
    dsimp only
    rw [henv, hmap]
    cases recommit (arena.blockStart bitmapIdx) (blocks * arenaBlockSize) <;>
      rfl
  refine ⟨rfl, rfl, rfl, rfl, ?_, rfl, fun h => absurd h hmarks, ?_⟩
  · unfold purge
    dsimp only
    rw [henv, hmap]
    cases recommit (arena.blockStart bitmapIdx) (blocks * arenaBlockSize) <;>
      simp
  · intro b hb
    rw [hmarked] at hb
    have hold : arena.marked b = bit map b := by
      unfold marked
      rw [hmap]
    rw [hold]
    split at hb
    · rw [hclears b, Bool.and_eq_true, Bool.not_eq_true',
        decide_eq_false_iff_not] at hb
      refine ⟨hb.1, ?_⟩
      intro range hrange hlo hhi
      rw [List.mem_singleton.mp hrange] at hlo hhi
      exact absurd ⟨hlo, hhi⟩ hb.2
    · rename_i hkept
      refine ⟨hb, ?_⟩
      intro range hrange _ _
      rw [List.mem_singleton.mp hrange]
      exact Bool.not_eq_true _ ▸ hkept

theorem Arena.purgeAll_purgedBy (henv : env.Answers recommit)
    (hmarks : arena.blocksCommitted ≠ none) (ranges : List (ℕ × ℕ)) :
    PurgedBy recommit ranges arena (arena.purgeAll env ranges) := by
  induction ranges generalizing arena with
  | nil => exact .same rfl rfl rfl rfl rfl rfl
  | cons range ranges ih =>
      have hfirst := purge_purgedBy henv hmarks range.1 range.2
      exact hfirst.trans (ih fun hnone => hmarks (hfirst.none_iff.mp hnone))

theorem Arena.tryPurge_swept (henv : env.Answers recommit)
    (hpinned : arena.isPinned = true ↔ arena.blocksCommitted = none)
    (force : Bool) :
    Swept recommit (fun _ => False) arena (arena.tryPurge env force).2 := by
  have hnothing : Swept recommit (fun _ => False) arena arena :=
    ⟨[], .same rfl rfl rfl rfl rfl rfl,
      fun b ⟨_, hrange, _⟩ => absurd hrange List.not_mem_nil⟩
  unfold tryPurge
  split
  · exact hnothing
  split
  · exact hnothing
  rename_i hunpinned _
  have hmarks : arena.blocksCommitted ≠ none :=
    fun hnone => hunpinned (hpinned.mpr hnone)
  obtain ⟨ranges, heq, hpurges⟩ := purgeFields_spec env arena.fieldCount 0
    false true { arena with purgeExpire := 0 }
  have hall := @purgeAll_purgedBy recommit env { arena with purgeExpire := 0 }
    henv hmarks ranges
  rw [heq]
  dsimp only
  rw [if_pos rfl]
  refine ⟨ranges, ⟨hall.start_eq, hall.blockCount_eq, hall.fieldCount_eq,
    hall.isPinned_eq, hall.none_iff, hall.purged_eq, hall.unpinned,
    hall.marked⟩, ?_⟩
  intro b hb
  obtain ⟨-, hlt, -, hfree⟩ := hpurges.free b hb
  rw [Nat.zero_add] at hlt
  exact Or.inr ⟨hlt, hfree⟩

theorem Arena.Swept.refl (recommit : ℕ → ℕ → Bool) (freed : ℕ → Prop)
    (arena : Arena) : Swept recommit freed arena arena :=
  ⟨[], .same rfl rfl rfl rfl rfl rfl,
    fun _ ⟨_, hrange, _⟩ => absurd hrange List.not_mem_nil⟩

theorem Arena.Swept.marked (h : Swept recommit freed arena arena') {b : ℕ}
    (hb : arena.marked b = false) : arena'.marked b = false := by
  obtain ⟨ranges, hpurged, -⟩ := h
  rw [← Bool.not_eq_true]
  intro hmarked
  rw [(hpurged.marked b hmarked).1] at hb
  cases hb

theorem Arena.Swept.trans (h : Swept recommit freed arena arena')
    (h' : Swept recommit freed arena' arena'')
    (hinuse : ∀ b, bit arena'.blocksInuse b = false → freed b ∨
      bit arena.blocksInuse b = false) :
    Swept recommit freed arena arena'' := by
  obtain ⟨ranges, hpurged, hfree⟩ := h
  obtain ⟨ranges', hpurged', hfree'⟩ := h'
  refine ⟨ranges ++ ranges', hpurged.trans hpurged', ?_⟩
  intro b hb
  rcases covered_append.mp hb with hb | hb
  · exact hfree b hb
  · rcases hfree' b hb with hfreed | ⟨hlt, hclear⟩
    · exact Or.inl hfreed
    · rw [hpurged.fieldCount_eq] at hlt
      exact (hinuse b hclear).imp_right fun hold => ⟨hlt, hold⟩

theorem Arena.Swept.mono {freed' : ℕ → Prop}
    (h : Swept recommit freed arena arena')
    (hfreed : ∀ b, freed b → freed' b) :
    Swept recommit freed' arena arena' := by
  obtain ⟨ranges, hpurged, hfree⟩ := h
  exact ⟨ranges, hpurged, fun b hb => (hfree b hb).imp_left (hfreed b)⟩

variable {st : Arenas} {index i : ℕ}

theorem Arenas.getElem?_setArena (harena : st.arenas[index]? = some arena)
    (arena' : Arena) (i : ℕ) :
    (st.setArena index arena').arenas[i]? =
      if i = index then some arena' else st.arenas[i]? := by
  have hlt := (List.getElem?_eq_some_iff.mp harena).1
  show (st.arenas.set index arena')[i]? = _
  rw [List.getElem?_set]
  by_cases hi : index = i
  · rw [if_pos hi, if_pos hlt, if_pos hi.symm]
  · rw [if_neg hi, if_neg fun h => hi h.symm]

theorem Arenas.tryPurge_swept (henv : env.Answers recommit)
    (hpinned : arena.isPinned = true ↔ arena.blocksCommitted = none)
    (harena : st.arenas[index]? = some arena) (force visitAll : Bool) :
    ∃ arena', (st.tryPurge env force visitAll).arenas[index]? = some arena' ∧
      arena.Swept recommit (fun _ => False) arena' := by
  rcases tryPurge_getElem? env st force visitAll index with hsame | hvisit
  · exact ⟨arena, hsame.trans harena, .refl _ _ _⟩
  · refine ⟨_, ?_, Arena.tryPurge_swept henv hpinned force⟩
    rw [hvisit, harena]
    rfl

/-- Scheduling purges the range at once or not at all. -/
theorem Arenas.schedulePurge_swept (henv : env.Answers recommit)
    (hmarks : arena'.blocksCommitted ≠ none)
    (harena : st.arenas[index]? = some arena') (bitmapIdx blocks : ℕ) :
    ∃ arena'', (∀ i, (st.schedulePurge env index arena' bitmapIdx
        blocks).arenas[i]? =
          if i = index then some arena'' else st.arenas[i]?) ∧
      arena''.blocksInuse = arena'.blocksInuse ∧
      arena'.Swept recommit
        (fun b => bitmapIdx ≤ b ∧ b < bitmapIdx + blocks) arena'' := by
  unfold schedulePurge
  split
  · refine ⟨arena', ?_, rfl, .refl _ _ _⟩
    intro i
    split
    · rename_i hi
      rw [hi]
      exact harena
    · rfl
  split
  · refine ⟨_, getElem?_setArena harena _, rfl, _,
      Arena.purge_purgedBy henv hmarks bitmapIdx blocks, ?_⟩
    rintro b ⟨range, hrange, hlo, hhi⟩
    rw [List.mem_singleton.mp hrange] at hlo hhi
    exact Or.inl ⟨hlo, hhi⟩
  · refine ⟨_, getElem?_setArena harena _, rfl, [], ?_, ?_⟩
    · exact .same rfl rfl rfl rfl rfl rfl
    · rintro b ⟨range, hrange, -⟩
      exact absurd hrange List.not_mem_nil

theorem Arena.unmark_swept (arena : Arena) (bitmapIdx blocks : ℕ) :
    let unmarked : Arena := { arena with
      blocksCommitted := arena.blocksCommitted.map fun map =>
        (bitmapUnclaimAcross map blocks bitmapIdx).2 }
    arena.Swept recommit freed unmarked ∧
      (arena.blocksCommitted ≠ none → ∀ b, bitmapIdx ≤ b →
        b < bitmapIdx + blocks → unmarked.marked b = false) := by
  dsimp only
  cases hmap : arena.blocksCommitted with
  | none =>
      refine ⟨⟨[], ?_, ?_⟩, fun h => absurd rfl h⟩
      · exact .same rfl rfl rfl rfl hmap.symm rfl
      · rintro b ⟨range, hrange, -⟩
        exact absurd hrange List.not_mem_nil
  | some map =>
      have hclears := (bitmapUnclaimAcross_spec map blocks bitmapIdx).1
      refine ⟨⟨[], ⟨rfl, rfl, rfl, rfl, by simp [hmap],
        (List.append_nil _).symm, fun _ => rfl, ?_⟩, ?_⟩, ?_⟩
      · intro b hb
        unfold marked at hb ⊢
        rw [hmap]
        dsimp only [Option.map_some] at hb ⊢
        rw [hclears b, Bool.and_eq_true] at hb
        exact ⟨hb.1, fun _ h => nomatch h⟩
      · rintro b ⟨range, hrange, -⟩
        exact absurd hrange List.not_mem_nil
      · intro _ b hlo hhi
        unfold marked
        dsimp only [Option.map_some]
        rw [hclears b, decide_eq_true ⟨hlo, hhi⟩]
        exact Bool.and_false _

def ArenaMemid.Has (memid : ArenaMemid) (blocks b : ℕ) : Prop :=
  memid.blockIndex ≤ b ∧ b < memid.blockIndex + blocks

/-- The first half of `_pa_arena_free`: the marks of blocks that are not all
committed are taken away, and the range is purged or scheduled. -/
theorem Arenas.freeMarks_swept (henv : env.Answers recommit)
    {memid : ArenaMemid} (blocks : ℕ) (allCommitted : Prop)
    [Decidable allCommitted]
    (hpinned : arena.isPinned = true ↔ arena.blocksCommitted = none)
    (harena : st.arenas[index]? = some arena) :
    let unmarked :=
      if allCommitted then arena
      else
        { arena with
          blocksCommitted := arena.blocksCommitted.map fun map =>
            (bitmapUnclaimAcross map blocks memid.blockIndex).2 }
    let st₁ :=
      if arena.isPinned ∨ arena.blocksCommitted.isNone then st
      else (st.setArena index unmarked).schedulePurge env index unmarked
        memid.blockIndex blocks
    ∃ arena₁, (∀ i, st₁.arenas[i]? =
        if i = index then some arena₁ else st.arenas[i]?) ∧
      arena₁.blocksInuse = arena.blocksInuse ∧
      arena.Swept recommit (memid.Has blocks) arena₁ ∧
      (¬allCommitted → arena.isPinned = false →
        ∀ b, memid.Has blocks b → arena₁.marked b = false) := by
  intro unmarked st₁
  by_cases hskip : arena.isPinned ∨ arena.blocksCommitted.isNone
  · refine ⟨arena, ?_, rfl, .refl _ _ _, ?_⟩
    · intro i
      show (if _ then st else _ : Arenas).arenas[i]? = _
      rw [if_pos hskip]
      split
      · rename_i hi
        rw [hi]
        exact harena
      · rfl
    · -- only pinned arenas have no marks
      intro _ hunpinned
      rcases hskip with hyes | hnone
      · rw [hyes] at hunpinned
        cases hunpinned
      · rw [hpinned.mpr (Option.isNone_iff_eq_none.mp hnone)] at hunpinned
        cases hunpinned
  have hmarks : arena.blocksCommitted ≠ none := by
    intro hnone
    exact hskip (Or.inr (Option.isNone_iff_eq_none.mpr hnone))
  obtain ⟨hunmark, hclear⟩ :=
    @Arena.unmark_swept recommit (memid.Has blocks) arena memid.blockIndex
      blocks
  have hunmarked : arena.Swept recommit (memid.Has blocks) unmarked ∧
      unmarked.blocksInuse = arena.blocksInuse ∧
      unmarked.blocksCommitted ≠ none ∧
      (¬allCommitted → ∀ b, memid.Has blocks b →
        unmarked.marked b = false) := by
    by_cases hall : allCommitted
    · have heq : unmarked = arena := if_pos hall
      rw [heq]
      exact ⟨.refl _ _ _, rfl, hmarks, fun hnot => absurd hall hnot⟩
    · have heq : unmarked = _ := if_neg hall
      rw [heq]
      refine ⟨hunmark, rfl, ?_, fun _ b hb => hclear hmarks b hb.1 hb.2⟩
      simpa using hmarks
  obtain ⟨hswept, hinuse, hsome, hcleared⟩ := hunmarked
  have hset : (st.setArena index unmarked).arenas[index]? =
      some unmarked := by
    rw [getElem?_setArena harena, if_pos rfl]
  obtain ⟨arena₁, hget, hinuse₁, hswept₁⟩ :=
    schedulePurge_swept henv hsome hset memid.blockIndex blocks
  refine ⟨arena₁, ?_, hinuse₁.trans hinuse, ?_, ?_⟩
  · intro i
    show (if _ then st else _ : Arenas).arenas[i]? = _
    rw [if_neg hskip, hget, getElem?_setArena harena]
    split <;> rfl
  · refine hswept.trans hswept₁ ?_
    intro b hb
    rw [hinuse] at hb
    exact Or.inr hb
  · intro hnot _ b hb
    exact hswept₁.marked (hcleared hnot b hb)

/-- What `_pa_arena_free` does to the marks: those of blocks that are not all
committed are taken away, and only blocks that are free afterwards are
purged. -/
theorem Arenas.free_swept {envPass : ArenaEnv} (henv : env.Answers recommit)
    (henvPass : envPass.Answers recommit) {size blocks committedSize : ℕ}
    {memid : ArenaMemid} (hsize : size ≠ 0)
    (hblocks : divideUp size arenaBlockSize = blocks)
    (harena : st.arenas[memid.arenaId - 1]? = some arena)
    (hfield : memid.blockIndex / 64 < arena.fieldCount)
    (hpinned : ∀ (i : ℕ) (other : Arena), st.arenas[i]? = some other →
      (other.isPinned = true ↔ other.blocksCommitted = none))
    {other : Arena} (hother : st.arenas[i]? = some other) :
    ∃ other', (st.free env envPass size committedSize memid).arenas[i]? =
        some other' ∧
      other.Swept recommit
        (fun b => i = memid.arenaId - 1 ∧ memid.Has blocks b) other' ∧
      (i = memid.arenaId - 1 → committedSize ≠ size →
        other.isPinned = false →
          ∀ b, memid.Has blocks b → other'.marked b = false) := by
  obtain ⟨arena₁, hget, hinuse, hswept, hcleared⟩ :=
    @freeMarks_swept recommit env arena st (memid.arenaId - 1) henv memid
      blocks (committedSize = size) _ (hpinned _ _ harena) harena
  unfold free
  rw [hblocks]
  dsimp only
  rw [if_neg hsize, harena]
  dsimp only
  rw [if_neg (not_le.mpr hfield)]
  generalize (if arena.isPinned ∨ arena.blocksCommitted.isNone then st
    else _) = st₁ at hget ⊢
  have hget₁ : st₁.arenas[memid.arenaId - 1]? = some arena₁ := by
    rw [hget, if_pos rfl]
  rw [hget₁]
  dsimp only
  have hunclaim := bitmapUnclaimAcross_spec arena₁.blocksInuse blocks
    memid.blockIndex
  set arena₂ : Arena :=
    { arena₁ with
      blocksInuse := (bitmapUnclaimAcross arena₁.blocksInuse blocks
        memid.blockIndex).2 } with harena₂
  set st₂ := st₁.setArena (memid.arenaId - 1) arena₂ with hst₂
  have hget₂ : ∀ i, st₂.arenas[i]? =
      if i = memid.arenaId - 1 then some arena₂ else st.arenas[i]? := by
    intro i
    rw [hst₂, getElem?_setArena hget₁, hget]
    split <;> rfl
  -- the range is no longer in use
  have hswept₂ : arena.Swept recommit (memid.Has blocks) arena₂ := by
    refine hswept.trans ⟨[], .same rfl rfl rfl rfl rfl rfl, ?_⟩ ?_
    · rintro b ⟨range, hrange, -⟩
      exact absurd hrange List.not_mem_nil
    · intro b hb
      rw [hinuse] at hb
      exact Or.inr hb
  have hinuse₂ : ∀ b, bit arena₂.blocksInuse b = false → memid.Has blocks b ∨
      bit arena.blocksInuse b = false := by
    intro b hb
    have hbit := hunclaim.1 b
    rw [hinuse] at hbit
    by_cases hin : memid.blockIndex ≤ b ∧ b < memid.blockIndex + blocks
    · exact Or.inl hin
    · right
      rw [decide_eq_false hin, Bool.not_false, Bool.and_true] at hbit
      rw [← hbit, ← hinuse]
      exact hb
  have hpinned₂ : ∀ (i : ℕ) (other : Arena), st₂.arenas[i]? = some other →
      (other.isPinned = true ↔ other.blocksCommitted = none) := by
    intro i other hother
    rw [hget₂] at hother
    split at hother
    · obtain rfl := Option.some.inj hother
      obtain ⟨ranges, hpurged, -⟩ := hswept₂
      rw [hpurged.isPinned_eq, hpurged.none_iff]
      exact hpinned _ _ harena
    · exact hpinned _ _ hother
  -- the pass at the end purges what is free by now
  have hpass : ∀ st₃ : Arenas,
      st₃ = st₂ ∨ st₃ = st₂.tryPurge envPass false false →
      ∀ {i : ℕ} {other : Arena}, st₂.arenas[i]? = some other →
        ∃ other', st₃.arenas[i]? = some other' ∧
          other.Swept recommit (fun _ => False) other' := by
    intro st₃ hst₃ i other hother
    rcases hst₃ with rfl | rfl
    · exact ⟨other, hother, .refl _ _ _⟩
    · exact tryPurge_swept henvPass (hpinned₂ _ _ hother) hother false false
  generalize hst₃ : (if ¬(bitmapUnclaimAcross arena₁.blocksInuse blocks
    memid.blockIndex).1 = true then st₂
    else st₂.tryPurge envPass false false) = st₃
  have hcases : st₃ = st₂ ∨ st₃ = st₂.tryPurge envPass false false := by
    rw [← hst₃]
    split
    · exact Or.inl rfl
    · exact Or.inr rfl
  by_cases hi : i = memid.arenaId - 1
  · subst hi
    obtain rfl := Option.some.inj (harena.symm.trans hother)
    have hthere : st₂.arenas[memid.arenaId - 1]? = some arena₂ := by
      rw [hget₂, if_pos rfl]
    obtain ⟨other', hget', hswept'⟩ := hpass st₃ hcases hthere
    refine ⟨other', hget', ?_, ?_⟩
    · apply (hswept₂.trans (hswept'.mono fun _ h => h.elim) hinuse₂).mono
      exact fun b hb => ⟨rfl, hb⟩
    · intro _ hne hunpinned b hb
      exact hswept'.marked (hcleared hne hunpinned b hb)
  · have hthere : st₂.arenas[i]? = some other := by
      rw [hget₂, if_neg hi]
      exact hother
    obtain ⟨other', hget', hswept'⟩ := hpass st₃ hcases hthere
    exact ⟨other', hget', hswept'.mono fun _ h => h.elim,
      fun h => absurd h hi⟩

end Purge

end Palloc
