import Palloc.VecArenaInvariant

/-!
# Everything a vector arena hands out

Ranges handed out since the last reset or clear end at or below `used`, so
each call places its ranges above all earlier ones.
-/

namespace Palloc

open MachineWord

structure VecInvariant (start : VecArena) (st : VecState) : Prop where
  valid : st.arena.Valid
  base_eq : st.arena.base = start.base
  alignment_eq : st.arena.alignment = start.alignment
  capacity_eq : st.arena.capacity = start.capacity
  handedDvd : ∀ range ∈ st.handed, start.alignment ∣ range.1
  handedBase : ∀ range ∈ st.handed, start.base ≤ range.1
  handedEnd : ∀ range ∈ st.handed,
    range.1 + range.2 ≤ start.base + st.arena.used
  handedDisjoint : st.handed.Pairwise fun earlier later =>
    earlier.1 + earlier.2 ≤ later.1

variable {start arena : VecArena} {st : VecState}

theorem VecInvariant.initial (hvalid : arena.Valid) :
    VecInvariant arena ⟨arena, []⟩ := by
  constructor
  · exact hvalid
  · rfl
  · rfl
  · rfl
  · simp
  · simp
  · simp
  · exact List.Pairwise.nil

theorem stream_ranges_disjoint {first step size count : ℕ}
    (hsize : size ≤ step) :
    (((List.range count).map fun i => first + i * step).map
      fun p => (p, size)).Pairwise fun earlier later =>
        earlier.1 + earlier.2 ≤ later.1 := by
  rw [List.map_map, List.pairwise_map]
  apply List.Pairwise.imp ?_ List.pairwise_lt_range
  intro i j hlt
  show first + i * step + size ≤ first + j * step
  have hmul : (i + 1) * step ≤ j * step := Nat.mul_le_mul_right step hlt
  rw [Nat.add_mul, Nat.one_mul] at hmul
  omega

theorem VecInvariant.advance {count size : ℕ} {ptrs : List ℕ}
    (hinv : VecInvariant start st)
    (hadvance : st.arena.Advance count size ptrs arena) :
    VecInvariant start
      ⟨arena, st.handed ++ ptrs.map fun p => (p, size)⟩ := by
  have hvalid := hinv.valid
  have hround : size ≤ exactAlignUp size st.arena.alignment :=
    le_exactAlignUp hvalid.alignmentPos
  have hmem : ∀ range ∈ ptrs.map (fun p => (p, size)), ∃ i < count,
      range = (st.arena.base + st.arena.used +
        i * exactAlignUp size st.arena.alignment, size) := by
    intro range hrange
    rw [hadvance.ptrs_eq, List.map_map] at hrange
    rcases List.mem_map.mp hrange with ⟨i, hi, heq⟩
    exact ⟨i, List.mem_range.mp hi, heq.symm⟩
  have hbase : arena.base = st.arena.base := by rw [hadvance.same]
  have halignment : arena.alignment = st.arena.alignment := by
    rw [hadvance.same]
  have hcapacity : arena.capacity = st.arena.capacity := by
    rw [hadvance.same]
  have hgrain : arena.commitGrain = st.arena.commitGrain := by
    rw [hadvance.same]
  have hroundDvd :
      st.arena.alignment ∣ exactAlignUp size st.arena.alignment :=
    dvd_exactAlignUp _ _
  constructor
  · constructor
    · rw [halignment]
      exact hvalid.alignmentPos
    · rw [halignment]
      exact hvalid.alignmentLe
    · rw [hbase]
      exact hvalid.basePos
    · rw [halignment, hbase]
      exact hvalid.baseDvd
    · rw [halignment, hadvance.used_eq]
      exact Nat.dvd_add hvalid.usedDvd (hroundDvd.mul_left count)
    · exact hadvance.usedLe
    · rw [hcapacity]
      exact hadvance.committedLe
    · rw [hbase, hcapacity]
      exact hvalid.capacityLe
    · rw [hgrain]
      exact hvalid.grainPos
    · rw [hgrain]
      exact hvalid.grainLt
  · rw [← hinv.base_eq]
    exact hbase
  · rw [← hinv.alignment_eq]
    exact halignment
  · rw [← hinv.capacity_eq]
    exact hcapacity
  · intro range hrange
    rcases List.mem_append.mp hrange with hold | hnew
    · exact hinv.handedDvd range hold
    · rcases hmem range hnew with ⟨i, -, rfl⟩
      rw [← hinv.alignment_eq]
      exact Nat.dvd_add (Nat.dvd_add hvalid.baseDvd hvalid.usedDvd)
        (hroundDvd.mul_left i)
  · intro range hrange
    rcases List.mem_append.mp hrange with hold | hnew
    · exact hinv.handedBase range hold
    · rcases hmem range hnew with ⟨i, -, rfl⟩
      rw [← hinv.base_eq]
      show st.arena.base ≤ st.arena.base + _ + _
      omega
  · intro range hrange
    rw [hadvance.used_eq]
    rcases List.mem_append.mp hrange with hold | hnew
    · have hend := hinv.handedEnd range hold
      omega
    · rcases hmem range hnew with ⟨i, hi, rfl⟩
      rw [← hinv.base_eq]
      have hmul : (i + 1) * exactAlignUp size st.arena.alignment ≤
          count * exactAlignUp size st.arena.alignment :=
        Nat.mul_le_mul_right _ hi
      rw [Nat.add_mul, Nat.one_mul] at hmul
      show st.arena.base + st.arena.used + _ + size ≤ _
      omega
  · apply List.pairwise_append.mpr
    refine ⟨hinv.handedDisjoint, ?_, ?_⟩
    · rw [hadvance.ptrs_eq]
      exact stream_ranges_disjoint hround
    · intro earlier hearlier later hlater
      have hend := hinv.handedEnd earlier hearlier
      rcases hmem later hlater with ⟨i, -, rfl⟩
      rw [← hinv.base_eq] at hend
      show _ ≤ st.arena.base + st.arena.used + _
      omega

theorem VecInvariant.rewind (hinv : VecInvariant start st) {committed : ℕ}
    (hcommitted : committed ≤ st.arena.committed) :
    VecInvariant start
      ⟨{ st.arena with committed := committed, used := 0 }, []⟩ := by
  have hvalid := hinv.valid
  constructor
  · constructor
    · exact hvalid.alignmentPos
    · exact hvalid.alignmentLe
    · exact hvalid.basePos
    · exact hvalid.baseDvd
    · exact dvd_zero _
    · exact Nat.zero_le _
    · exact hcommitted.trans hvalid.committedLe
    · exact hvalid.capacityLe
    · exact hvalid.grainPos
    · exact hvalid.grainLt
  · exact hinv.base_eq
  · exact hinv.alignment_eq
  · exact hinv.capacity_eq
  · simp
  · simp
  · simp
  · exact List.Pairwise.nil

theorem VecInvariant.call (hinv : VecInvariant start st) (call : VecCall) :
    VecInvariant start (st.call call) := by
  cases call with
  | alloc size commitOk =>
      rcases hinv.valid.alloc_spec size.isLt commitOk with
        hfail | ⟨p, arena, hok, hadvance⟩
      · simp only [VecState.call, hfail]
        simpa using hinv
      · simp only [VecState.call, hok]
        exact hinv.advance hadvance
  | allocBatch count size commitOk hasAvx2 =>
      rcases hinv.valid.allocBatch_spec size.isLt count commitOk hasAvx2
        with
        hfail | ⟨ptrs, arena, hok, hadvance⟩
      · simp only [VecState.call, hfail]
        simpa using hinv
      · simp only [VecState.call, hok]
        exact hinv.advance hadvance
  | reset =>
      show VecInvariant start ⟨st.arena.reset, []⟩
      unfold VecArena.reset
      split
      · exact hinv.rewind (Nat.zero_le _)
      · exact hinv.rewind le_rfl
  | clear => exact hinv.rewind le_rfl
  | setMaxSize maxBytes =>
      have hvalid := hinv.valid
      exact ⟨⟨hvalid.alignmentPos, hvalid.alignmentLe, hvalid.basePos,
        hvalid.baseDvd, hvalid.usedDvd, hvalid.usedLe, hvalid.committedLe,
        hvalid.capacityLe, hvalid.grainPos, hvalid.grainLt⟩,
        hinv.base_eq, hinv.alignment_eq, hinv.capacity_eq, hinv.handedDvd,
        hinv.handedBase, hinv.handedEnd, hinv.handedDisjoint⟩

theorem VecInvariant.run (hinv : VecInvariant start st)
    (calls : List VecCall) :
    VecInvariant start (calls.foldl VecState.call st) := by
  induction calls generalizing st with
  | nil => exact hinv
  | cons call calls ih => exact ih (hinv.call call)

/-- Whatever is called on a created arena, and whatever the commits do: what it
handed out is aligned, disjoint and inside the payload, the bounds on `used`
hold, and the next allocation either advances by exact sums or changes
nothing. -/
theorem vec_arena_run {os : PrimOs} {heap : Option ℕ} {structOk : Bool}
    {initialSize alignment : Word} {arena : VecArena}
    (hcreate :
      vecArenaCreateEx os heap structOk initialSize alignment = some arena)
    (calls : List VecCall) (st : VecState)
    (hst : st = calls.foldl VecState.call ⟨arena, []⟩) :
    arena.capacity = exactAlignUp initialSize os.pageSize ∧
    arena.osBlock ≤ arena.base ∧
    arena.base + arena.capacity ≤ arena.osBlock + arena.osBlockSize ∧
    arena.base + arena.capacity ≤ wordSize ∧
    (∀ range ∈ st.handed, alignment.val ∣ range.1 ∧ arena.base ≤ range.1 ∧
      range.1 + range.2 ≤ arena.base + arena.capacity) ∧
    (st.handed.Pairwise fun earlier later =>
      earlier.1 + earlier.2 ≤ later.1) ∧
    st.arena.used ≤ st.arena.committed ∧
    st.arena.committed ≤ st.arena.capacity ∧
    st.arena.base = arena.base ∧ st.arena.alignment = alignment ∧
    st.arena.capacity = arena.capacity ∧
    (∀ (size : Word) (commitOk : Bool),
      st.arena.alloc size commitOk = (none, st.arena) ∨
      ∃ p arena', st.arena.alloc size commitOk = (some p, arena') ∧
        st.arena.Advance 1 size [p] arena') ∧
    (∀ (count size : Word) (commitOk hasAvx2 : Bool),
      st.arena.allocBatch count size commitOk hasAvx2 = ([], st.arena) ∨
      ∃ ptrs arena',
        st.arena.allocBatch count size commitOk hasAvx2 = (ptrs, arena') ∧
        st.arena.Advance count size ptrs arena') := by
  rcases vecArenaCreateEx_spec alignment.isLt hcreate with ⟨hvalid, hcreated⟩
  have hinv : VecInvariant arena st := by
    rw [hst]
    exact (VecInvariant.initial hvalid).run calls
  have halignment := hcreated.alignment_eq
  have hbounds := hinv.valid.usedLe
  have hcommitted := hinv.valid.committedLe
  have hcapacity := hinv.capacity_eq
  refine ⟨hcreated.capacity_eq, hcreated.osBlockLe, hcreated.endLe,
    hvalid.capacityLe, ?_, hinv.handedDisjoint, hbounds, hcommitted,
    hinv.base_eq, hinv.alignment_eq.trans halignment, hcapacity, ?_, ?_⟩
  · intro range hrange
    refine ⟨?_, hinv.handedBase range hrange, ?_⟩
    · rw [← halignment]
      exact hinv.handedDvd range hrange
    · have hend := hinv.handedEnd range hrange
      omega
  · intro size commitOk
    exact hinv.valid.alloc_spec size.isLt commitOk
  · intro count size commitOk hasAvx2
    exact hinv.valid.allocBatch_spec size.isLt count commitOk hasAvx2

/-! ## An arena of one page -/

/-- What `vecArenaCreateEx` makes of 100 bytes aligned to 64. -/
def pageArena : VecArena where
  osBlock := 4096
  osBlockSize := 4096
  base := 4096
  alignment := 64
  capacity := 4096
  used := 0
  committed := 4096
  commitGrain := 2 * 1024 * 1024
  maxSize := 0
  useOsReserve := true

theorem vecArenaCreateEx_pageOs :
    vecArenaCreateEx pageOs (some 0) true (100 : Word) (64 : Word) =
      some pageArena := by
  decide +kernel

theorem vec_arena_run_pageArena :
    ∃ st : VecState, st.handed = [(4096, 10), (4160, 70), (4288, 70)] ∧
      st.arena.used = 320 ∧
      ∀ range ∈ st.handed, (64 : Word).val ∣ range.1 := by
  refine ⟨_, ?_, ?_, fun range hrange =>
    ((vec_arena_run vecArenaCreateEx_pageOs
      [.alloc 10 true, .allocBatch 2 70 true true] _ rfl).2.2.2.2.1
        range hrange).1⟩
  · decide +kernel
  · decide +kernel

/-- A rounding does wrap around: the aligned size of `SIZE_MAX` is zero.  The
call then finds it smaller than the size and fails. -/
theorem vec_arena_rounding_wraps :
    ¬ ∀ (os : PrimOs) (heap : Option ℕ) (structOk : Bool)
        (initialSize alignment : Word) (arena : VecArena),
      vecArenaCreateEx os heap structOk initialSize alignment = some arena →
      ∀ (calls : List VecCall) (size : Word),
        let st := calls.foldl VecState.call ⟨arena, []⟩
        wordAlignUp size st.arena.alignment =
          exactAlignUp size st.arena.alignment := by
  intro hexact
  have hround := hexact pageOs (some 0) true 100 64 pageArena
    vecArenaCreateEx_pageOs [] ⟨maxWord, by decide⟩
  revert hround
  decide +kernel

end Palloc
