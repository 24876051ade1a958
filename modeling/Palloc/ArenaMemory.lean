import Palloc.ArenaCommit

/-!
# Arenas in memory

The arenas lie apart from each other and from the memory that was mapped for
single segments.  So what an arena does to the memory of its free blocks
touches no memory in use, and the marks of the free blocks stay right.
-/

namespace Palloc

open BitFields MachineWord

/-! ## The operations with the memory -/

def ArenaEnv.answering (env : ArenaEnv) (recommit : ℕ → ℕ → Bool) :
    ArenaEnv :=
  { env with osPurge := fun start size _ => recommit start size }

theorem ArenaEnv.answering_answers (env : ArenaEnv)
    (recommit : ℕ → ℕ → Bool) : (env.answering recommit).Answers recommit :=
  fun _ _ _ => rfl

/-- The arena purged the address, and it has to be committed again. -/
def Arena.tookAway (recommit : ℕ → ℕ → Bool) (arena arena' : Arena)
    (a : ℕ) : Bool :=
  (arena'.purged.drop arena.purged.length).any fun range =>
    recommit (arena.blockStart range.1) (range.2 * arenaBlockSize) &&
      decide (arena.blockStart range.1 ≤ a ∧
        a < arena.blockStart range.1 + range.2 * arenaBlockSize)

/-- The memory after the purges that lead from one state of the arenas to
another. -/
def Os.afterPurges (os : Os) (recommit : ℕ → ℕ → Bool)
    (st st' : Arenas) : Os :=
  { os with
    committed := fun a => os.committed a &&
      !(st.arenas.zip st'.arenas).any fun (arena, arena') =>
        arena.tookAway recommit arena' a }

/-- An allocation of blocks in the arena at `index`. -/
def ArenaRun.allocBlocks (run : ArenaRun) (os : Os) (index blocks : ℕ)
    (commit : Bool) : Option LiveBlocks × ArenaRun × Os :=
  match run.st.arenas[index]? with
  | none => (none, run, os)
  | some arena =>
      match arena.tryAllocAtOs os blocks commit with
      | (none, arena, os) =>
          (none, { run with st := run.st.setArena index arena }, os)
      | (some (p, memid), arena, os) =>
          (some ⟨p, memid, blocks⟩,
            ⟨run.st.setArena index arena, ⟨p, memid, blocks⟩ :: run.live⟩, os)

/-- `_pa_arena_alloc` in the arena at `index`. -/
def ArenaRun.allocOs (run : ArenaRun) (os : Os) (index size : ℕ)
    (commit : Bool) : Option LiveBlocks × ArenaRun × Os :=
  if size = 0 then (none, run, os)
  else run.allocBlocks os index (divideUp size arenaBlockSize) commit

/-- `_pa_arena_free` of live allocation `k`. -/
def ArenaRun.freeOs (run : ArenaRun) (os : Os) (k size committedSize : ℕ)
    (env envPass : ArenaEnv) (recommit : ℕ → ℕ → Bool) : ArenaRun × Os :=
  let run' := run.call (.free k size committedSize (env.answering recommit)
    (envPass.answering recommit))
  (run', os.afterPurges recommit run.st run'.st)

/-- `_pa_arenas_collect` or another pass over the arenas. -/
def ArenaRun.purgeOs (run : ArenaRun) (os : Os) (env : ArenaEnv)
    (force visitAll : Bool) (recommit : ℕ → ℕ → Bool) : ArenaRun × Os :=
  let run' := run.call (.tryPurge (env.answering recommit) force visitAll)
  (run', os.afterPurges recommit run.st run'.st)

/-! ## The invariant -/

def Arena.stop (arena : Arena) : ℕ := arena.blockStart arena.blockCount

def LiveBlocks.InRange (l : LiveBlocks) (a : ℕ) : Prop :=
  l.p ≤ a ∧ a < l.p + l.blocks * arenaBlockSize

abbrev Mapped := ℕ × ℕ

structure ArenaRun.Sound (run : ArenaRun) (mapped : List Mapped) (os : Os) :
    Prop where
  owned : run.Owned
  aligned : ∀ (i : ℕ) (arena : Arena), run.st.arenas[i]? = some arena →
    arenaBlockSize ∣ arena.start
  apart : ∀ (i j : ℕ) (arena other : Arena), i ≠ j →
    run.st.arenas[i]? = some arena → run.st.arenas[j]? = some other →
      arena.stop ≤ other.start ∨ other.stop ≤ arena.start
  mappedApart : ∀ r ∈ mapped, ∀ (i : ℕ) (arena : Arena),
    run.st.arenas[i]? = some arena →
      r.1 * segmentSize + r.2 ≤ arena.start ∨
        arena.stop ≤ r.1 * segmentSize
  pinned : ∀ l ∈ run.live, ∀ (arena : Arena),
    run.st.arenas[l.memid.arenaId - 1]? = some arena →
      arena.isPinned = l.memid.isPinned
  truthful : ∀ (i : ℕ) (arena : Arena), run.st.arenas[i]? = some arena →
    arena.Truthful os

section Sound

variable {run run' : ArenaRun} {mapped : List Mapped} {os os' : Os}
variable {recommit : ℕ → ℕ → Bool} {arena arena' other : Arena} {i j a b c : ℕ}

theorem Arena.InBlock.bounds (h : arena.InBlock b a)
    (hb : b < arena.blockCount) : arena.start ≤ a ∧ a < arena.stop := by
  have hle := Nat.mul_le_mul_right arenaBlockSize
    (show b + 1 ≤ arena.blockCount from hb)
  rw [Nat.add_mul, Nat.one_mul] at hle
  unfold InBlock blockStart at h
  unfold stop blockStart
  omega

theorem Arena.InBlock.unique (h : arena.InBlock b a)
    (h' : arena.InBlock c a) : b = c := by
  unfold InBlock blockStart arenaBlockSize at h h'
  omega

theorem LiveBlocks.Placed.inRange {l : LiveBlocks}
    (hplaced : l.Placed i arena.view) (hhas : l.memid.Has l.blocks b)
    (hin : arena.InBlock b a) : l.InRange a := by
  have hp : l.p = arena.blockStart l.memid.blockIndex := hplaced.p_eq
  have hlow := Nat.mul_le_mul_right arenaBlockSize hhas.1
  have hhigh := Nat.mul_le_mul_right arenaBlockSize
    (show b + 1 ≤ l.memid.blockIndex + l.blocks from hhas.2)
  rw [Nat.add_mul, Nat.one_mul, Nat.add_mul] at hhigh
  unfold LiveBlocks.InRange
  rw [hp]
  unfold Arena.InBlock Arena.blockStart at hin
  unfold Arena.blockStart
  omega

namespace ArenaRun.Sound

theorem block_unique (h : run.Sound mapped os)
    (harena : run.st.arenas[i]? = some arena)
    (hother : run.st.arenas[j]? = some other) (hb : b < arena.blockCount)
    (hc : c < other.blockCount) (hin : arena.InBlock b a)
    (hin' : other.InBlock c a) : i = j ∧ b = c := by
  have hij : i = j := by
    by_contra hne
    have hapart := h.apart i j arena other hne harena hother
    have hbounds := hin.bounds hb
    have hbounds' := hin'.bounds hc
    omega
  subst hij
  rw [harena] at hother
  cases hother
  exact ⟨rfl, hin.unique hin'⟩

theorem mapped_notInBlock (h : run.Sound mapped os) {r : Mapped}
    (hr : r ∈ mapped) (harena : run.st.arenas[i]? = some arena)
    (hb : b < arena.blockCount) (hlo : r.1 * segmentSize ≤ a)
    (hhi : a < r.1 * segmentSize + r.2) : ¬ arena.InBlock b a := by
  intro hin
  have hapart := h.mappedApart r hr i arena harena
  have hbounds := hin.bounds hb
  omega

/-- The memory of an allocation lies in its blocks, which are in use. -/
theorem inRange_block (h : run.Sound mapped os) {l : LiveBlocks}
    (hl : l ∈ run.live) (hin : l.InRange a) :
    ∃ (arena : Arena) (b : ℕ),
      run.st.arenas[l.memid.arenaId - 1]? = some arena ∧
      l.memid.Has l.blocks b ∧ b < arena.blockCount ∧ arena.InBlock b a ∧
      bit arena.blocksInuse b = true := by
  obtain ⟨arena, harena, hplaced⟩ := h.owned.placed hl
  have hp : l.p = arena.blockStart l.memid.blockIndex := hplaced.p_eq
  have hinside : l.memid.blockIndex + l.blocks ≤ arena.blockCount :=
    hplaced.inside
  unfold LiveBlocks.InRange at hin
  rw [hp] at hin
  obtain ⟨b, hlo, hhi, hblock⟩ := Arena.exists_inBlock hin.1 hin.2
  refine ⟨arena, b, harena, ⟨hlo, hhi⟩, by omega, hblock, ?_⟩
  refine (Ownership.inuse h.owned _ arena.view (getElem?_view harena) b).mpr
    (Or.inl ⟨l, hl, ?_, hlo, hhi⟩)
  exact hplaced.arenaId_eq

theorem live_apart (h : run.Sound mapped os) : run.live.Pairwise fun l l' =>
    ∀ a, l.InRange a → ¬ l'.InRange a := by
  have hmem : ∀ l ∈ run.live, ∀ l' ∈ run.live, l.Apart l' →
      ∀ a, l.InRange a → ¬ l'.InRange a := by
    intro l hl l' hl' hapart a ha ha'
    obtain ⟨arena, b, harena, hhas, hb, hin, -⟩ := h.inRange_block hl ha
    obtain ⟨arena', c, harena', hhas', hc, hin', -⟩ :=
      h.inRange_block hl' ha'
    obtain ⟨hid, rfl⟩ := h.block_unique harena harena' hb hc hin hin'
    obtain ⟨_, -, hplaced⟩ := h.owned.placed hl
    obtain ⟨_, -, hplaced'⟩ := h.owned.placed hl'
    have hdisjoint := hapart (by
      rw [hplaced.arenaId_eq, hplaced'.arenaId_eq, hid])
    unfold ArenaMemid.Has at hhas hhas'
    omega
  exact h.owned.apart.imp_of_mem fun hl hl' => hmem _ hl _ hl'

theorem mapped_notInRange (h : run.Sound mapped os) {l : LiveBlocks}
    {r : Mapped} (hl : l ∈ run.live) (hr : r ∈ mapped)
    (hlo : r.1 * segmentSize ≤ a) (hhi : a < r.1 * segmentSize + r.2) :
    ¬ l.InRange a := by
  intro hin
  obtain ⟨arena, b, harena, -, hb, hblock, -⟩ := h.inRange_block hl hin
  exact h.mapped_notInBlock hr harena hb hlo hhi hblock

theorem inuse_iff (h : run.Sound mapped os)
    (harena : run.st.arenas[i]? = some arena) (hb : b < arena.blockCount) :
    bit arena.blocksInuse b = true ↔ ∃ l ∈ run.live, l.Covers (i + 1) b := by
  have hiff := Ownership.inuse h.owned i arena.view (getElem?_view harena) b
  have hnot : ¬ (arena.view.blockCount ≤ b ∧
      b < 64 * arena.view.fieldCount) := fun hleft =>
    absurd hb (not_lt.mpr hleft.1)
  rw [or_iff_left hnot] at hiff
  exact hiff

/-- Memory may be lost in blocks that are in use and not pinned. -/
theorem touch (h : run.Sound mapped os)
    (hkept : ∀ (i : ℕ) (arena : Arena) (b a : ℕ),
      run.st.arenas[i]? = some arena → b < arena.blockCount →
      arena.isPinned = true ∨ bit arena.blocksInuse b = false →
      arena.InBlock b a → os.committed a = true → os'.committed a = true) :
    run.Sound mapped os' := by
  refine ⟨h.owned, h.aligned, h.apart, h.mappedApart, h.pinned, ?_⟩
  intro i arena harena
  have htrue := h.truthful i arena harena
  refine ⟨htrue.pinned_iff, ?_⟩
  intro b hb hfree hmarked a hin
  exact hkept i arena b a harena hb hfree hin
    (htrue.backed b hb hfree hmarked a hin)

theorem keeps (h : run.Sound mapped os) (hkeeps : os.Keeps os') :
    run.Sound mapped os' :=
  h.touch fun _ _ _ a _ _ _ _ ha => hkeeps a ha

/-- Mapping or unmapping memory outside the arenas. -/
theorem remap (h : run.Sound mapped os) {mapped' : List Mapped}
    (hmapped : ∀ r ∈ mapped', ∀ (i : ℕ) (arena : Arena),
      run.st.arenas[i]? = some arena →
        r.1 * segmentSize + r.2 ≤ arena.start ∨
          arena.stop ≤ r.1 * segmentSize) :
    run.Sound mapped' os :=
  ⟨h.owned, h.aligned, h.apart, hmapped, h.pinned, h.truthful⟩

end ArenaRun.Sound

/-! ## Lost memory -/

/-- What was taken away lies in purged blocks. -/
theorem Arena.PurgedBy.tookAway {ranges : List (ℕ × ℕ)}
    (h : PurgedBy recommit ranges arena arena')
    (htook : arena.tookAway recommit arena' a = true) :
    ∃ range ∈ ranges,
      recommit (arena.blockStart range.1) (range.2 * arenaBlockSize) =
        true ∧
      ∃ b, range.1 ≤ b ∧ b < range.1 + range.2 ∧ arena.InBlock b a := by
  unfold Arena.tookAway at htook
  rw [h.purged_eq, List.drop_left, List.any_eq_true] at htook
  obtain ⟨range, hrange, hyes⟩ := htook
  rw [Bool.and_eq_true, decide_eq_true_eq] at hyes
  exact ⟨range, hrange, hyes.1, exists_inBlock hyes.2.1 hyes.2.2⟩

structure SweptTo (recommit : ℕ → ℕ → Bool) (freed : ℕ → ℕ → Prop)
    (run run' : ArenaRun) : Prop where
  length_eq : run'.st.arenas.length = run.st.arenas.length
  swept : ∀ (i : ℕ) (arena : Arena), run.st.arenas[i]? = some arena →
    ∃ arena', run'.st.arenas[i]? = some arena' ∧
      arena.Swept recommit (freed i) arena'
  inside : ∀ (i : ℕ) (arena : Arena) (b : ℕ),
    run.st.arenas[i]? = some arena → freed i b → b < arena.blockCount

namespace SweptTo

variable {freed : ℕ → ℕ → Prop}

theorem getElem? (h : SweptTo recommit freed run run')
    (harena' : run'.st.arenas[i]? = some arena') :
    ∃ arena, run.st.arenas[i]? = some arena ∧
      arena.Swept recommit (freed i) arena' := by
  have hlt := (List.getElem?_eq_some_iff.mp harena').1
  rw [h.length_eq] at hlt
  have harena := List.getElem?_eq_getElem hlt
  obtain ⟨other, hother, hswept⟩ := h.swept i _ harena
  rw [harena'] at hother
  cases hother
  exact ⟨_, harena, hswept⟩

/-- Memory that was lost lies in a block that was freed or free, and whose
mark was taken away. -/
theorem lost (h : SweptTo recommit freed run run')
    (hsound : run.Sound mapped os) (ha : os.committed a = true)
    (hlost : (os.afterPurges recommit run.st run'.st).committed a = false) :
    ∃ (i : ℕ) (arena arena' : Arena) (b : ℕ),
      run.st.arenas[i]? = some arena ∧ run'.st.arenas[i]? = some arena' ∧
      b < arena.blockCount ∧ arena.InBlock b a ∧
      (freed i b ∨ bit arena.blocksInuse b = false) ∧
      arena'.marked b = false := by
  unfold Os.afterPurges at hlost
  dsimp only at hlost
  rw [ha, Bool.true_and, Bool.not_eq_false', List.any_eq_true] at hlost
  obtain ⟨pair, hpair, htook⟩ := hlost
  obtain ⟨i, hi⟩ := List.mem_iff_getElem?.mp hpair
  rw [List.getElem?_zip_eq_some] at hi
  obtain ⟨harena, harena'⟩ := hi
  obtain ⟨arena, harena₀, ranges, hpurged, hfree⟩ := h.getElem? harena'
  rw [harena] at harena₀
  obtain rfl := Option.some.inj harena₀
  obtain ⟨range, hrange, hrecommit, b, hlo, hhi, hin⟩ :=
    hpurged.tookAway htook
  have hor := hfree b ⟨range, hrange, hlo, hhi⟩
  refine ⟨i, pair.1, pair.2, b, harena, harena', ?_, hin, ?_, ?_⟩
  · rcases hor with hfreed | ⟨hlt, hclear⟩
    · exact h.inside i _ b harena hfreed
    · -- the leftover bits are in use
      by_contra hge
      have hset := (Ownership.inuse hsound.owned i pair.1.view
        (getElem?_view harena) b).mpr (Or.inr ⟨not_lt.mp hge, hlt⟩)
      exact Bool.false_ne_true (hclear.symm.trans hset)
  · exact hor.imp_right And.right
  · rw [← Bool.not_eq_true]
    intro hmarked
    have hkept := (hpurged.marked b hmarked).2 range hrange hlo hhi
    rw [hrecommit] at hkept
    cases hkept

/-- Memory in blocks that are in use and not freed is kept. -/
theorem keeps (h : SweptTo recommit freed run run')
    (hsound : run.Sound mapped os) (ha : os.committed a = true)
    (hused : ∀ (i : ℕ) (arena : Arena) (b : ℕ),
      run.st.arenas[i]? = some arena → b < arena.blockCount →
      arena.InBlock b a → ¬ freed i b ∧ bit arena.blocksInuse b = true) :
    (os.afterPurges recommit run.st run'.st).committed a = true := by
  by_contra hlost
  rw [Bool.not_eq_true] at hlost
  obtain ⟨i, arena, arena', b, harena, -, hb, hin, hfree, -⟩ :=
    h.lost hsound ha hlost
  obtain ⟨hnot, hinuse⟩ := hused i arena b harena hb hin
  rcases hfree with hfreed | hclear
  · exact hnot hfreed
  · rw [hinuse] at hclear
    cases hclear

/-- The marks of the blocks that are free afterwards are right. -/
theorem sound (h : SweptTo recommit freed run run')
    (hsound : run.Sound mapped os) (howned : run'.Owned)
    (hlive : ∀ l ∈ run'.live, l ∈ run.live)
    (hfree : ∀ (i : ℕ) (arena arena' : Arena) (b : ℕ),
      run.st.arenas[i]? = some arena → run'.st.arenas[i]? = some arena' →
      b < arena.blockCount → arena.isPinned = false →
      bit arena'.blocksInuse b = false → arena'.marked b = true →
        bit arena.blocksInuse b = false ∨ arena.BlockBacked os b) :
    run'.Sound mapped (os.afterPurges recommit run.st run'.st) := by
  have hback : ∀ {i : ℕ} {arena' : Arena},
      run'.st.arenas[i]? = some arena' →
      ∃ arena, run.st.arenas[i]? = some arena ∧
        arena'.start = arena.start ∧ arena'.stop = arena.stop ∧
        arena'.isPinned = arena.isPinned := by
    intro i arena' harena'
    obtain ⟨arena, harena, ranges, hpurged, -⟩ := h.getElem? harena'
    refine ⟨arena, harena, hpurged.start_eq, ?_, hpurged.isPinned_eq⟩
    unfold Arena.stop Arena.blockStart
    rw [hpurged.start_eq, hpurged.blockCount_eq]
  refine ⟨howned, ?_, ?_, ?_, ?_, ?_⟩
  · intro i arena' harena'
    obtain ⟨arena, harena, hstart, -⟩ := hback harena'
    rw [hstart]
    exact hsound.aligned i arena harena
  · intro i j arena' other' hne harena' hother'
    obtain ⟨arena, harena, hstart, hstop, -⟩ := hback harena'
    obtain ⟨other, hother, hstart', hstop', -⟩ := hback hother'
    rw [hstart, hstop, hstart', hstop']
    exact hsound.apart i j arena other hne harena hother
  · intro r hr i arena' harena'
    obtain ⟨arena, harena, hstart, hstop, -⟩ := hback harena'
    rw [hstart, hstop]
    exact hsound.mappedApart r hr i arena harena
  · intro l hl arena' harena'
    obtain ⟨arena, harena, -, -, hpinned⟩ := hback harena'
    rw [hpinned]
    exact hsound.pinned l (hlive l hl) arena harena
  · intro i arena' harena'
    obtain ⟨arena, harena, ranges, hpurged, -⟩ := h.getElem? harena'
    have htrue := hsound.truthful i arena harena
    constructor
    · rw [hpurged.isPinned_eq, hpurged.none_iff]
      exact htrue.pinned_iff
    intro b hb hor hmarked a hin
    rw [hpurged.blockCount_eq] at hb
    rw [hpurged.isPinned_eq] at hor
    have hin₀ : arena.InBlock b a := by
      unfold Arena.InBlock Arena.blockStart at hin ⊢
      rw [hpurged.start_eq] at hin
      exact hin
    have hmarked₀ := (hpurged.marked b hmarked).1
    have hbacked : arena.BlockBacked os b := by
      by_cases hpinned : arena.isPinned = true
      · exact htrue.backed b hb (Or.inl hpinned) hmarked₀
      · have hclear := hor.resolve_left hpinned
        rw [Bool.not_eq_true] at hpinned
        rcases hfree i arena arena' b harena harena' hb hpinned hclear
          hmarked with hold | hall
        · exact htrue.backed b hb (Or.inr hold) hmarked₀
        · exact hall
    by_contra hlost
    rw [Bool.not_eq_true] at hlost
    obtain ⟨j, other, other', c, hother, hother', hc, hin', -, hunmarked⟩ :=
      h.lost hsound (hbacked a hin₀) hlost
    obtain ⟨rfl, rfl⟩ :=
      hsound.block_unique harena hother hb hc hin₀ hin'
    rw [harena'] at hother'
    cases hother'
    rw [hmarked] at hunmarked
    cases hunmarked

end SweptTo

/-! ## Purging and freeing -/

/-- The address is in the memory of an allocation or of a mapped segment. -/
def ArenaRun.Reserved (run : ArenaRun) (mapped : List Mapped) (a : ℕ) :
    Prop :=
  (∃ l ∈ run.live, l.InRange a) ∨
    ∃ r ∈ mapped, r.1 * segmentSize ≤ a ∧ a < r.1 * segmentSize + r.2

namespace ArenaRun.Sound

theorem reserved_block (h : run.Sound mapped os)
    (hreserved : run.Reserved mapped a)
    (harena : run.st.arenas[i]? = some arena) (hb : b < arena.blockCount)
    (hin : arena.InBlock b a) :
    ∃ l ∈ run.live, l.memid.arenaId - 1 = i ∧ l.memid.Has l.blocks b := by
  rcases hreserved with ⟨l, hl, hrange⟩ | ⟨r, hr, hlo, hhi⟩
  · obtain ⟨other, c, hother, hhas, hc, hin', -⟩ := h.inRange_block hl hrange
    obtain ⟨rfl, rfl⟩ := h.block_unique harena hother hb hc hin hin'
    exact ⟨l, hl, rfl, hhas⟩
  · exact absurd hin (h.mapped_notInBlock hr harena hb hlo hhi)

theorem purge (h : run.Sound mapped os) (env : ArenaEnv)
    (force visitAll : Bool) (recommit : ℕ → ℕ → Bool) :
    let result := run.purgeOs os env force visitAll recommit
    result.1.Sound mapped result.2 ∧ result.1.live = run.live ∧
      ∀ a, run.Reserved mapped a → os.committed a = true →
        result.2.committed a = true := by
  intro result
  have hanswers := env.answering_answers recommit
  have hviews : result.1.st.arenas.map Arena.view =
      run.st.arenas.map Arena.view := Arenas.tryPurge_view ..
  have hinuse : ∀ {i : ℕ} {arena arena' : Arena},
      run.st.arenas[i]? = some arena → result.1.st.arenas[i]? = some arena' →
        arena'.blocksInuse = arena.blocksInuse := by
    intro i arena arena' harena harena'
    have hview' := getElem?_view harena'
    rw [hviews, getElem?_view harena] at hview'
    exact (congrArg ArenaView.blocksInuse (Option.some.inj hview')).symm
  have hswept : SweptTo recommit (fun _ _ => False) run result.1 := by
    refine ⟨?_, ?_, fun _ _ _ _ hfreed => hfreed.elim⟩
    · have hlen := congrArg List.length hviews
      rwa [List.length_map, List.length_map] at hlen
    · intro i arena harena
      exact Arenas.tryPurge_swept hanswers
        (h.truthful i arena harena).pinned_iff harena force visitAll
  refine ⟨?_, rfl, ?_⟩
  · apply hswept.sound h (h.owned.call _) (fun _ hl => hl)
    intro i arena arena' b harena harena' _ _ hclear _
    rw [hinuse harena harena'] at hclear
    exact Or.inl hclear
  · intro a hreserved ha
    apply hswept.keeps h ha
    intro i arena b harena hb hin
    obtain ⟨l, hl, hi, hhas⟩ := h.reserved_block hreserved harena hb hin
    refine ⟨not_false, (h.inuse_iff harena hb).mpr ⟨l, hl, ?_, hhas⟩⟩
    obtain ⟨_, -, hplaced⟩ := h.owned.placed hl
    rw [hplaced.arenaId_eq, hi]

/-- Freeing an allocation, which is committed when that is what the committed
size says. -/
theorem free (h : run.Sound mapped os) {k size committedSize : ℕ}
    {l : LiveBlocks} (hl : run.live[k]? = some l) (hsize : size ≠ 0)
    (hblocks : divideUp size arenaBlockSize = l.blocks)
    (hback : committedSize = size → ∀ a, l.InRange a →
      os.committed a = true)
    (env envPass : ArenaEnv) (recommit : ℕ → ℕ → Bool) :
    let result := run.freeOs os k size committedSize env envPass recommit
    result.1.Sound mapped result.2 ∧
      result.1.live = run.live.eraseIdx k ∧
      ∀ a, result.1.Reserved mapped a → os.committed a = true →
        result.2.committed a = true := by
  intro result
  have hmem := List.mem_of_getElem? hl
  obtain ⟨home, hhome, hplaced⟩ := h.owned.placed hmem
  have hinside : l.memid.blockIndex + l.blocks ≤ home.blockCount :=
    hplaced.inside
  have hid : l.memid.arenaId = l.memid.arenaId - 1 + 1 := hplaced.arenaId_eq
  have hfields : home.fieldCount = divideUp home.blockCount 64 :=
    Ownership.fields_eq h.owned _ home.view (getElem?_view hhome)
  have hrun : result.1 = ⟨run.st.free (env.answering recommit)
      (envPass.answering recommit) size committedSize l.memid,
      run.live.eraseIdx k⟩ := by
    show run.call (.free k size committedSize (env.answering recommit)
      (envPass.answering recommit)) = _
    unfold ArenaRun.call
    dsimp only
    rw [hl]
    dsimp only
    rw [if_neg (not_or.mpr ⟨hsize, not_not.mpr hblocks⟩)]
  have howned : result.1.Owned := h.owned.call _
  have hfreed : ∀ (i : ℕ) (arena : Arena),
      run.st.arenas[i]? = some arena → ∃ arena',
        result.1.st.arenas[i]? = some arena' ∧
        arena.Swept recommit
          (fun b => i = l.memid.arenaId - 1 ∧ l.memid.Has l.blocks b)
          arena' ∧
        (i = l.memid.arenaId - 1 → committedSize ≠ size →
          arena.isPinned = false →
            ∀ b, l.memid.Has l.blocks b → arena'.marked b = false) := by
    intro i arena harena
    rw [hrun]
    exact Arenas.free_swept (env.answering_answers recommit)
      (envPass.answering_answers recommit) hsize hblocks hhome
      (hplaced.field_lt hfields)
      (fun j other hother => (h.truthful j other hother).pinned_iff) harena
  have hswept : SweptTo recommit
      (fun i b => i = l.memid.arenaId - 1 ∧ l.memid.Has l.blocks b) run
      result.1 := by
    refine ⟨?_, ?_, ?_⟩
    · obtain ⟨inuse, -, hviews⟩ := run.st.free_spec (env.answering recommit)
        (envPass.answering recommit) committedSize hsize hblocks hhome
        (hplaced.field_lt hfields)
      have hlen := congrArg List.length hviews
      rw [List.length_map, List.length_set, List.length_map] at hlen
      rw [hrun]
      exact hlen
    · intro i arena harena
      obtain ⟨arena', harena', hsweep, -⟩ := hfreed i arena harena
      exact ⟨arena', harena', hsweep⟩
    · rintro i arena b harena ⟨rfl, hhas⟩
      rw [hhome] at harena
      cases harena
      exact hhas.2.trans_le hinside
  have hlive : result.1.live = run.live.eraseIdx k := by rw [hrun]
  refine ⟨?_, hlive, ?_⟩
  · apply hswept.sound h howned
    · intro other hother
      rw [hlive] at hother
      exact List.mem_of_mem_eraseIdx hother
    intro i arena arena' b harena harena' hb hunpinned hclear hmarked
    -- a block that is free by now was free, or it was freed
    by_contra hnone
    obtain ⟨hinuse, hnot⟩ := not_or.mp hnone
    rw [Bool.not_eq_false] at hinuse
    obtain ⟨other, hother, hcovers⟩ := (h.inuse_iff harena hb).mp hinuse
    obtain ⟨arena₁, harena₁, -, hunmarked⟩ := hfreed i arena harena
    rw [harena'] at harena₁
    cases harena₁
    rcases mem_eraseIdx_or hl hother with rfl | hkept
    · have hi : i = other.memid.arenaId - 1 := by
        rw [hcovers.1, Nat.add_sub_cancel]
      by_cases hall : committedSize = size
      · apply hnot
        intro a hin
        apply hback hall a
        subst hi
        rw [hhome] at harena
        cases harena
        exact hplaced.inRange hcovers.2 hin
      · have hfalse := hunmarked hi hall hunpinned b hcovers.2
        rw [hmarked] at hfalse
        cases hfalse
    · -- the other allocations keep their blocks
      have hset := (Ownership.inuse howned i arena'.view
        (getElem?_view harena') b).mpr
          (Or.inl ⟨other, by rw [hlive]; exact hkept, hcovers⟩)
      exact Bool.false_ne_true (hclear.symm.trans hset)
  · intro a hreserved ha
    apply hswept.keeps h ha
    intro i arena b harena hb hin
    have hstill : ∃ other ∈ run.live.eraseIdx k,
        other.memid.arenaId - 1 = i ∧ other.memid.Has other.blocks b := by
      rcases hreserved with ⟨other, hother, hrange⟩ | ⟨r, hr, hlo, hhi⟩
      · rw [hlive] at hother
        obtain ⟨arena₁, c, harena₁, hhas, hc, hin', -⟩ :=
          h.inRange_block (List.mem_of_mem_eraseIdx hother) hrange
        obtain ⟨rfl, rfl⟩ := h.block_unique harena harena₁ hb hc hin hin'
        exact ⟨other, hother, rfl, hhas⟩
      · exact absurd hin (h.mapped_notInBlock hr harena hb hlo hhi)
    obtain ⟨other, hother, hi, hhas⟩ := hstill
    obtain ⟨hold, hapart⟩ := Ownership.mem_eraseIdx h.owned hl hother
    obtain ⟨_, -, hplaced'⟩ := h.owned.placed hold
    have hid' : other.memid.arenaId = i + 1 := by
      rw [hplaced'.arenaId_eq, hi]
    refine ⟨?_, (h.inuse_iff harena hb).mpr ⟨other, hold, hid', hhas⟩⟩
    rintro ⟨hi', hhas'⟩
    have hdisjoint := hapart (by omega)
    unfold ArenaMemid.Has at hhas hhas'
    omega

end ArenaRun.Sound

/-! ## Allocation and registration -/

structure ArenaRun.Gave (run : ArenaRun) (os : Os) (index size : ℕ)
    (commit : Bool) (l : LiveBlocks) (run' : ArenaRun) (os' : Os) :
    Prop where
  live_eq : run'.live = l :: run.live
  blocks_eq : l.blocks = divideUp size arenaBlockSize
  pos : 0 < l.blocks
  aligned : arenaBlockSize ∣ l.p
  backs : l.memid.initiallyCommitted = true → ∀ a, l.InRange a →
    os'.committed a = true
  refused : commit = true → l.memid.initiallyCommitted = false →
    ∃ (arena : Arena) (bitmapIdx : ℕ),
      run.st.arenas[index]? = some arena ∧
      (tryFindFromClaimAcross arena.blocksInuse arena.fieldCount 0
        l.blocks).1 = some bitmapIdx ∧
      arena.asksCommit l.blocks bitmapIdx true = true ∧
      os.answer.commitOk = false ∧ os'.answer = os.answers (os.calls + 1)

theorem Arena.tryAllocAtOs_none {blocks : ℕ} {commit : Bool}
    (htry : arena.tryAllocAtOs os blocks commit = (none, arena', os')) :
    arena.tryAllocAt blocks commit os.answer.commitOk os.answer.commitZero =
      (none, arena') := by
  unfold tryAllocAtOs at htry
  split at htry
  · rename_i heq
    cases htry
    exact heq
  · cases htry

theorem Arena.tryAllocAtOs_some {blocks p : ℕ} {commit : Bool}
    {memid : ArenaMemid}
    (htry : arena.tryAllocAtOs os blocks commit =
      (some (p, memid), arena', os')) :
    arena.tryAllocAt blocks commit os.answer.commitOk os.answer.commitZero =
      (some (p, memid), arena') := by
  unfold tryAllocAtOs at htry
  split at htry
  · cases htry
  · rename_i heq
    cases htry
    exact heq

theorem ArenaRun.allocBlocks_cases (run : ArenaRun) (os : Os)
    (index blocks : ℕ) (commit : Bool) :
    run.allocBlocks os index blocks commit = (none, run, os) ∨
    ∃ arena, run.st.arenas[index]? = some arena ∧
      ((∃ arena', arena.tryAllocAtOs os blocks commit =
          (none, arena', os) ∧
        run.allocBlocks os index blocks commit =
          (none, { run with st := run.st.setArena index arena' }, os)) ∨
      ∃ p memid arena' os',
        arena.tryAllocAtOs os blocks commit =
          (some (p, memid), arena', os') ∧
        run.allocBlocks os index blocks commit =
          (some ⟨p, memid, blocks⟩,
            ⟨run.st.setArena index arena', ⟨p, memid, blocks⟩ :: run.live⟩,
            os')) := by
  unfold allocBlocks
  cases harena : run.st.arenas[index]? with
  | none => exact Or.inl rfl
  | some arena =>
      refine Or.inr ⟨arena, rfl, ?_⟩
      dsimp only
      rcases htry : arena.tryAllocAtOs os blocks commit with
        ⟨_ | ⟨p, memid⟩, arena', os'⟩
      · left
        have hos : os' = os := by
          unfold Arena.tryAllocAtOs at htry
          split at htry
          · cases htry
            rfl
          · cases htry
        subst hos
        exact ⟨arena', rfl, rfl⟩
      · exact Or.inr ⟨p, memid, arena', os', rfl, rfl⟩

theorem ArenaRun.call_alloc {index size blocks : ℕ}
    {commit commitOk commitZero : Bool} (hsize : size ≠ 0)
    (hblocks : divideUp size arenaBlockSize = blocks)
    (harena : run.st.arenas[index]? = some arena) :
    run.call (.alloc index size commit commitOk commitZero) =
      match arena.tryAllocAt blocks commit commitOk commitZero with
      | (none, arena) => { run with st := run.st.setArena index arena }
      | (some (p, memid), arena) =>
          ⟨run.st.setArena index arena, ⟨p, memid, blocks⟩ :: run.live⟩ := by
  rcases hresult : arena.tryAllocAt blocks commit commitOk commitZero with
    ⟨_ | ⟨p, memid⟩, arena'⟩
  · simp [ArenaRun.call, harena, hsize, hblocks, hresult]
  · simp [ArenaRun.call, harena, hsize, hblocks, hresult]

namespace ArenaRun.Sound

/-- An arena got new marks. -/
theorem replace (h : run.Sound mapped os) {live : List LiveBlocks}
    (harena : run.st.arenas[i]? = some arena)
    (hstart : arena'.start = arena.start)
    (hcount : arena'.blockCount = arena.blockCount)
    (hpinned : arena'.isPinned = arena.isPinned)
    (htrue : arena'.Truthful os)
    (howned : ArenaRun.Owned ⟨run.st.setArena i arena', live⟩)
    (hlive : ∀ l ∈ live, l ∈ run.live ∨
      l.memid.arenaId - 1 = i ∧ l.memid.isPinned = arena.isPinned) :
    ArenaRun.Sound ⟨run.st.setArena i arena', live⟩ mapped os := by
  have hstop : arena'.stop = arena.stop := by
    unfold Arena.stop Arena.blockStart
    rw [hstart, hcount]
  have hback : ∀ {j : ℕ} {other' : Arena},
      (run.st.setArena i arena').arenas[j]? = some other' →
      ∃ other, run.st.arenas[j]? = some other ∧
        other'.start = other.start ∧ other'.stop = other.stop ∧
        other'.isPinned = other.isPinned ∧
        (other' = other ∨ other' = arena') := by
    intro j other' hother
    rw [Arenas.getElem?_setArena harena] at hother
    split at hother
    · rename_i hj
      obtain rfl := Option.some.inj hother
      subst hj
      exact ⟨arena, harena, hstart, hstop, hpinned, Or.inr rfl⟩
    · exact ⟨other', hother, rfl, rfl, rfl, Or.inl rfl⟩
  refine ⟨howned, ?_, ?_, ?_, ?_, ?_⟩
  · intro j other' hother
    obtain ⟨other, hother, hsame, -⟩ := hback hother
    rw [hsame]
    exact h.aligned j other hother
  · intro j j' other' third' hne hother hthird
    obtain ⟨other, hother, hsame, hstop, -⟩ := hback hother
    obtain ⟨third, hthird, hsame', hstop', -⟩ := hback hthird
    rw [hsame, hstop, hsame', hstop']
    exact h.apart j j' other third hne hother hthird
  · intro r hr j other' hother
    obtain ⟨other, hother, hsame, hstop, -⟩ := hback hother
    rw [hsame, hstop]
    exact h.mappedApart r hr j other hother
  · intro l hl other' hother
    obtain ⟨other, hother, -, -, hsame, -⟩ := hback hother
    rw [hsame]
    rcases hlive l hl with hold | ⟨hi, hnew⟩
    · exact h.pinned l hold other hother
    · rw [hi, harena] at hother
      cases hother
      exact hnew.symm
  · intro j other' hother
    obtain ⟨other, hother, -, -, -, heq | heq⟩ := hback hother
    · rw [heq]
      exact h.truthful j other hother
    · rw [heq]
      exact htrue

theorem allocBlocks_owned (h : run.Sound mapped os) {index size blocks : ℕ}
    (hsize : size ≠ 0) (hblocks : divideUp size arenaBlockSize = blocks)
    (commit : Bool) : (run.allocBlocks os index blocks commit).2.1.Owned := by
  have hcall := h.owned.call
    (.alloc index size commit os.answer.commitOk os.answer.commitZero)
  rcases run.allocBlocks_cases os index blocks commit with
    heq | ⟨arena, harena, hcases⟩
  · rw [heq]
    exact h.owned
  rw [ArenaRun.call_alloc hsize hblocks harena] at hcall
  rcases hcases with ⟨arena', htry, heq⟩ | ⟨p, memid, arena', os', htry, heq⟩
  · rw [Arena.tryAllocAtOs_none htry] at hcall
    rw [heq]
    exact hcall
  · rw [Arena.tryAllocAtOs_some htry] at hcall
    rw [heq]
    exact hcall

/-- An allocation keeps the memory, and the marks of the free blocks stay
right. -/
theorem alloc (h : run.Sound mapped os) {index size : ℕ} {commit : Bool}
    {found : Option LiveBlocks}
    (hresult : run.allocOs os index size commit = (found, run', os')) :
    run'.Sound mapped os' ∧ os.Keeps os' ∧
      match found with
      | none => run'.live = run.live
      | some l => run.Gave os index size commit l run' os' := by
  unfold allocOs at hresult
  split at hresult
  · cases hresult
    exact ⟨h, .refl os, rfl⟩
  rename_i hsize
  have hpos : 0 < divideUp size arenaBlockSize :=
    divideUp_pos hsize (by decide)
  generalize hblocks : divideUp size arenaBlockSize = blocks at hpos hresult
  have howned := @allocBlocks_owned run mapped os h index size blocks hsize
    hblocks commit
  rw [hresult] at howned
  rcases run.allocBlocks_cases os index blocks commit with
    heq | ⟨arena, harena, hcases⟩
  · rw [hresult] at heq
    cases heq
    exact ⟨h, .refl os, rfl⟩
  have htrue := h.truthful index arena harena
  rcases hcases with ⟨arena', htry, heq⟩ | ⟨p, memid, arena', os₁, htry, heq⟩
  · rw [hresult] at heq
    cases heq
    rcases arena.tryAllocAtOs_spec os hpos commit with
      ⟨arena₁, htry', hview, hpinned, hmarks⟩ | ⟨p, memid, arena₁, os₁, htry', -⟩
    swap
    · rw [htry] at htry'
      cases htry'
    rw [htry] at htry'
    cases htry'
    have hstart : arena'.start = arena.start :=
      congrArg ArenaView.start hview
    have hcount : arena'.blockCount = arena.blockCount :=
      congrArg ArenaView.blockCount hview
    have hinuse : arena'.blocksInuse = arena.blocksInuse :=
      congrArg ArenaView.blocksInuse hview
    refine ⟨?_, .refl os, rfl⟩
    refine h.replace harena hstart hcount hpinned ?_ howned
      fun l hl => Or.inl hl
    refine ⟨by rw [hpinned, hmarks]; exact htrue.pinned_iff, ?_⟩
    intro b hb hor hmarked a hin
    rw [hcount] at hb
    rw [hpinned, hinuse] at hor
    unfold Arena.marked at hmarked
    rw [hmarks] at hmarked
    unfold Arena.InBlock Arena.blockStart at hin
    rw [hstart] at hin
    exact htrue.backed b hb hor hmarked a hin
  · rw [hresult] at heq
    cases heq
    rcases arena.tryAllocAtOs_spec os hpos commit with
      ⟨arena₁, htry', -⟩ | ⟨p₁, memid₁, arena₁, os₂, htry', hgranted⟩
    · rw [htry] at htry'
      cases htry'
    rw [htry] at htry'
    cases htry'
    obtain ⟨inuse, hview, hclaimed⟩ := hgranted.claimed
    have hstart : arena'.start = arena.start :=
      congrArg ArenaView.start hview
    have hcount : arena'.blockCount = arena.blockCount :=
      congrArg ArenaView.blockCount hview
    have hinuse : arena'.blocksInuse = inuse :=
      congrArg ArenaView.blocksInuse hview
    have hinside : memid.blockIndex + blocks ≤ arena.blockCount :=
      Ownership.claimed_inside h.owned (getElem?_view harena) hpos hclaimed
    have htrue' : arena'.Truthful os' := by
      constructor
      · rw [hgranted.isPinned_eq, hgranted.none_iff]
        exact htrue.pinned_iff
      intro b hb hor hmarked a hin
      rw [hcount] at hb
      rw [hgranted.isPinned_eq, hinuse] at hor
      unfold Arena.InBlock Arena.blockStart at hin
      rw [hstart] at hin
      apply hgranted.keeps a
      rcases hor with hyes | hclear
      · refine htrue.backed b hb (Or.inl hyes) ?_ a hin
        unfold Arena.marked
        rw [htrue.pinned_iff.mp hyes]
      · -- a block that is free by now was not claimed
        have hboth := (hclaimed.sets b).symm
        rw [hclear, Bool.or_eq_false_iff, decide_eq_false_iff_not] at hboth
        rw [hgranted.marked_outside b (by omega)] at hmarked
        exact htrue.backed b hb (Or.inr hboth.1) hmarked a hin
    have hid : memid.arenaId = index + 1 :=
      hgranted.memid_id.trans
        (Ownership.id_eq h.owned index arena.view (getElem?_view harena))
    refine ⟨?_, hgranted.keeps, ?_⟩
    · refine (h.keeps hgranted.keeps).replace harena hstart hcount
        hgranted.isPinned_eq htrue' howned ?_
      intro l hl
      rcases List.mem_cons.mp hl with rfl | hold
      · refine Or.inr ⟨?_, hgranted.memid_pinned⟩
        dsimp only
        omega
      · exact Or.inl hold
    · refine ⟨rfl, hblocks.symm, hpos, ?_, ?_, ?_⟩
      · dsimp only
        rw [hgranted.p_eq]
        exact Nat.dvd_add (h.aligned index arena harena) (Dvd.intro_left _ rfl)
      · intro hok a hin
        exact hgranted.backs htrue hinside hok a hin.1 hin.2
      · intro hcommit hno
        have hnot := mt hgranted.committed_iff.mpr (by
          show ¬ memid.initiallyCommitted = true
          rw [show memid.initiallyCommitted = false from hno]
          exact Bool.false_ne_true)
        rw [hcommit, if_pos rfl, not_or] at hnot
        have hasks := hnot.1
        rw [Bool.not_eq_false] at hasks
        refine ⟨arena, memid.blockIndex, harena, hgranted.found, hasks,
          Bool.not_eq_true _ ▸ hnot.2, ?_⟩
        rw [hgranted.os_eq, hcommit, if_pos hasks]
        rfl

end ArenaRun.Sound

/-- An area of the caller that may be managed: it is committed when it is said
to be, which pinned memory has to be, and nothing else lies in it. -/
structure ArenaRun.Manageable (run : ArenaRun) (mapped : List Mapped)
    (os : Os) (area : OsArea) : Prop where
  committed : area.initiallyCommitted = true →
    os.Backs area.start (area.start + area.size)
  pinned : area.isPinned = true → area.initiallyCommitted = true
  apart : ∀ (i : ℕ) (arena : Arena), run.st.arenas[i]? = some arena →
    area.start + area.size ≤ arena.start ∨ arena.stop ≤ area.start
  mappedApart : ∀ r ∈ mapped,
    r.1 * segmentSize + r.2 ≤ area.start ∨
      area.start + area.size ≤ r.1 * segmentSize

/-- Where a fresh arena lies in its area, and how it is marked. -/
theorem manageOsMemory_area {area : OsArea} {exclusive metaOk : Bool}
    (hmanage : manageOsMemory area exclusive metaOk = some arena) :
    arenaBlockSize ∣ arena.start ∧ area.start ≤ arena.start ∧
      arena.stop ≤ area.start + area.size ∧
      arena.isPinned = area.isPinned ∧
      (arena.isPinned = true ↔ arena.blocksCommitted = none) ∧
      ∀ b, arena.marked b = true →
        area.isPinned = true ∨ area.initiallyCommitted = true := by
  unfold manageOsMemory at hmanage
  split at hmanage
  · cases hmanage
  rename_i hlarge
  dsimp only at hmanage
  split at hmanage
  · cases hmanage
  rename_i hroom
  split at hmanage
  · cases hmanage
  injection hmanage with hmanage
  subst hmanage
  have hpos : 0 < arenaBlockSize := by decide
  have hword := area.end_le
  have hblock : arenaBlockSize = 33554432 := rfl
  -- the aligned part of the area
  have hpart : (area.start % arenaBlockSize ≠ 0 →
      area.start ≤ wordAlignUp area.start arenaBlockSize ∧
        wordAlignUp area.start arenaBlockSize <
          area.start + arenaBlockSize) := by
    intro _
    rw [wordAlignUp_of_lt (by unfold wordSize at hword ⊢; omega)]
    exact ⟨le_exactAlignUp hpos, exactAlignUp_lt hpos⟩
  refine ⟨?_, ?_, ?_, rfl, ?_, ?_⟩
  · show arenaBlockSize ∣ if area.start % arenaBlockSize ≠ 0 then _ else _
    split
    · exact dvd_wordAlignUp _ _
    · rename_i haligned
      exact Nat.dvd_of_mod_eq_zero (not_not.mp haligned)
  · show area.start ≤ if area.start % arenaBlockSize ≠ 0 then _ else _
    split
    · rename_i hne
      exact (hpart hne).1
    · exact le_rfl
  · show (if area.start % arenaBlockSize ≠ 0 then _ else _) +
      (if area.start % arenaBlockSize ≠ 0 then _ else _) / arenaBlockSize *
        arenaBlockSize ≤ _
    split
    · rename_i hne
      have hle := Nat.div_mul_le_self (area.size -
        (wordAlignUp area.start arenaBlockSize - area.start)) arenaBlockSize
      have hbounds := hpart hne
      have hfits := not_and.mp hroom hne
      omega
    · have hle := Nat.div_mul_le_self area.size arenaBlockSize
      omega
  · cases area.isPinned <;> simp
  · intro b hmarked
    cases hpinned : area.isPinned with
    | true => exact Or.inl rfl
    | false =>
        right
        by_contra hno
        unfold Arena.marked at hmarked
        simp [hpinned, hno, bit] at hmarked

theorem ArenaRun.Sound.manage (h : run.Sound mapped os) {area : OsArea}
    (harea : run.Manageable mapped os area) (exclusive metaOk : Bool) :
    (run.call (.manage area exclusive metaOk)).Sound mapped os ∧
      (run.call (.manage area exclusive metaOk)).live = run.live := by
  have howned := h.owned.call (.manage area exclusive metaOk)
  have hcall : run.call (.manage area exclusive metaOk) =
      { run with st := run.st.manage area exclusive metaOk } := rfl
  refine ⟨?_, rfl⟩
  rw [hcall] at howned ⊢
  unfold Arenas.manage at howned ⊢
  cases hmanage : manageOsMemory area exclusive metaOk with
  | none => exact h
  | some fresh =>
  rw [hmanage] at howned
  dsimp only at howned ⊢
  by_cases hroom : run.st.arenas.length < maxArenas
  swap
  · rw [if_neg hroom]
    exact h
  rw [if_pos hroom] at howned ⊢
  obtain ⟨haligned, hlo, hhi, -, hpinned, hmarked⟩ :=
    manageOsMemory_area hmanage
  set arena : Arena := { fresh with id := run.st.arenas.length + 1 }
  have hget : ∀ {j : ℕ} {other : Arena},
      (run.st.arenas ++ [arena])[j]? = some other →
      run.st.arenas[j]? = some other ∨
        j = run.st.arenas.length ∧ other = arena := by
    intro j other hother
    rcases Nat.lt_or_ge j run.st.arenas.length with hlt | hge
    · rw [List.getElem?_append_left hlt] at hother
      exact Or.inl hother
    · rw [List.getElem?_append_right hge, List.getElem?_singleton] at hother
      split at hother
      · cases hother
        exact Or.inr ⟨by omega, rfl⟩
      · cases hother
  refine ⟨howned, ?_, ?_, ?_, ?_, ?_⟩
  · intro j other hother
    rcases hget hother with hold | ⟨-, rfl⟩
    · exact h.aligned j other hold
    · exact haligned
  · intro j k other third hne hother hthird
    rcases hget hother with hold | ⟨hj, rfl⟩
    · rcases hget hthird with hold' | ⟨-, rfl⟩
      · exact h.apart j k other third hne hold hold'
      · have hapart := harea.apart j other hold
        show other.stop ≤ fresh.start ∨ fresh.stop ≤ other.start
        omega
    · rcases hget hthird with hold' | ⟨hk, -⟩
      · have hapart := harea.apart k third hold'
        show fresh.stop ≤ third.start ∨ third.stop ≤ fresh.start
        omega
      · exact absurd (hj.trans hk.symm) hne
  · intro r hr j other hother
    rcases hget hother with hold | ⟨-, rfl⟩
    · exact h.mappedApart r hr j other hold
    · have hapart := harea.mappedApart r hr
      show _ ≤ fresh.start ∨ fresh.stop ≤ _
      omega
  · intro l hl other hother
    rcases hget hother with hold | ⟨hj, rfl⟩
    · exact h.pinned l hl other hold
    · -- no allocation lies in an arena that was not there
      obtain ⟨home, hhome, -⟩ := h.owned.placed hl
      have hlt := (List.getElem?_eq_some_iff.mp hhome).1
      omega
  · intro j other hother
    rcases hget hother with hold | ⟨-, rfl⟩
    · exact h.truthful j other hold
    refine ⟨hpinned, ?_⟩
    intro b hb _ hyes a hin
    have hbounds := hin.bounds hb
    have hcommitted : area.initiallyCommitted = true :=
      (hmarked b hyes).elim harea.pinned id
    refine harea.committed hcommitted a ?_ ?_
    · exact hlo.trans hbounds.1
    · exact lt_of_lt_of_le hbounds.2 hhi

end Sound

end Palloc
