import Palloc.ArenaBlocks

/-!
# What a purge of an arena does

The walk over the purge bitmap amounts to a list of ranges that are purged one
after another: they consist of blocks that are scheduled and not in use, and
all such blocks are in one of them.
-/

namespace Palloc

open BitFields

variable {arena : Arena} {env : ArenaEnv}

/-- Block `b` is scheduled for a purge. -/
def Arena.scheduled (arena : Arena) (b : ℕ) : Bool :=
  match arena.blocksPurge with
  | none => false
  | some map => bit map b

def Arena.purgeAll (env : ArenaEnv) (arena : Arena)
    (ranges : List (ℕ × ℕ)) : Arena :=
  ranges.foldl (fun arena range => arena.purge env range.1 range.2) arena

/-- Block `b` lies in one of the ranges. -/
def Covered (ranges : List (ℕ × ℕ)) (b : ℕ) : Prop :=
  ∃ range ∈ ranges, range.1 ≤ b ∧ b < range.1 + range.2

theorem covered_append {ranges ranges' : List (ℕ × ℕ)} {b : ℕ} :
    Covered (ranges ++ ranges') b ↔ Covered ranges b ∨ Covered ranges' b := by
  simp only [Covered, List.mem_append, or_and_right, exists_or]

theorem Arena.purge_scheduled (arena : Arena) (env : ArenaEnv)
    (bitmapIdx blocks b : ℕ) :
    (arena.purge env bitmapIdx blocks).scheduled b =
      (arena.scheduled b &&
        !decide (bitmapIdx ≤ b ∧ b < bitmapIdx + blocks)) := by
  unfold scheduled purge
  dsimp only
  cases arena.blocksPurge with
  | none => rfl
  | some map => exact (bitmapUnclaimAcross_spec map blocks bitmapIdx).1 b

theorem Arena.purgeAll_append (env : ArenaEnv) (arena : Arena)
    (ranges ranges' : List (ℕ × ℕ)) :
    arena.purgeAll env (ranges ++ ranges') =
      (arena.purgeAll env ranges).purgeAll env ranges' :=
  List.foldl_append ..

theorem Arena.purgeAll_scheduled (env : ArenaEnv) (arena : Arena)
    (ranges : List (ℕ × ℕ)) (b : ℕ) :
    (arena.purgeAll env ranges).scheduled b = true ↔
      arena.scheduled b = true ∧ ¬ Covered ranges b := by
  induction ranges generalizing arena with
  | nil =>
      show arena.scheduled b = true ↔ _
      simp [Covered]
  | cons range ranges ih =>
      show ((arena.purge env range.1 range.2).purgeAll env ranges).scheduled b =
        true ↔ _
      rw [ih, purge_scheduled, Bool.and_eq_true]
      simp only [Bool.not_eq_true', decide_eq_false_iff_not, Covered,
        List.mem_cons, exists_eq_or_imp, not_or, and_assoc]

theorem Arena.purgeAll_purged (env : ArenaEnv) (arena : Arena)
    (ranges : List (ℕ × ℕ)) :
    (arena.purgeAll env ranges).purged = arena.purged ++ ranges := by
  induction ranges generalizing arena with
  | nil => exact (List.append_nil _).symm
  | cons range ranges ih =>
      show ((arena.purge env range.1 range.2).purgeAll env ranges).purged = _
      rw [ih]
      show arena.purged ++ [(range.1, range.2)] ++ ranges = _
      rw [List.append_assoc]
      rfl

/-- The fields that a purge does not touch. -/
theorem Arena.purgeAll_frame (env : ArenaEnv) (arena : Arena)
    (ranges : List (ℕ × ℕ)) :
    (arena.purgeAll env ranges).blocksInuse = arena.blocksInuse ∧
    (arena.purgeAll env ranges).purgeExpire = arena.purgeExpire ∧
    (arena.purgeAll env ranges).fieldCount = arena.fieldCount ∧
    (arena.purgeAll env ranges).isPinned = arena.isPinned := by
  induction ranges generalizing arena with
  | nil => exact ⟨rfl, rfl, rfl, rfl⟩
  | cons range ranges ih => exact ih (arena.purge env range.1 range.2)

/-! ## One run of ones -/

theorem countOnes_spec (purge : BitVec 64) {endidx fuel bitidx : ℕ}
    (hfuel : endidx ≤ fuel + bitidx) (hle : bitidx ≤ endidx) :
    let count := Arena.countOnes purge endidx fuel bitidx
    bitidx + count ≤ endidx ∧
    (∀ j, bitidx ≤ j → j < bitidx + count → purge.getLsbD j = true) ∧
    (bitidx + count < endidx → purge.getLsbD (bitidx + count) = false) := by
  induction fuel generalizing bitidx with
  | zero =>
      intro count
      refine ⟨hle, ?_, ?_⟩
      · intro j hj hj'
        exact absurd hj' (not_lt.mpr hj)
      · intro hlt
        have hcount : count = 0 := rfl
        omega
  | succ fuel ih =>
      unfold Arena.countOnes
      by_cases hone : bitidx < endidx ∧ purge.getLsbD bitidx = true
      · rw [if_pos hone]
        have hrest := @ih (bitidx + 1) (by omega) (by omega)
        generalize Arena.countOnes purge endidx fuel (bitidx + 1) = rest
          at hrest ⊢
        rcases hrest with ⟨hend, hones, hnext⟩
        have hshift : bitidx + (rest + 1) = bitidx + 1 + rest := by omega
        intro count
        show bitidx + (rest + 1) ≤ _ ∧ (∀ j, _ → j < bitidx + (rest + 1) → _) ∧
          (bitidx + (rest + 1) < _ → purge.getLsbD (bitidx + (rest + 1)) = _)
        rw [hshift]
        refine ⟨hend, ?_, hnext⟩
        intro j hj hj'
        by_cases hfirst : j = bitidx
        · rw [hfirst]
          exact hone.2
        · exact hones j (by omega) hj'
      · rw [if_neg hone]
        refine ⟨hle, ?_, ?_⟩
        · intro j hj hj'
          exact absurd hj' (not_lt.mpr hj)
        · intro hlt
          show purge.getLsbD bitidx = false
          exact Bool.eq_false_iff.mpr fun h => hone ⟨hlt, h⟩

/-- A claimed range of ones is purged in one piece. -/
theorem purgeRange_ones (env : ArenaEnv) (idx : ℕ) {startidx bitlen : ℕ}
    {purge : BitVec 64} (hpos : 0 < bitlen) (hend : startidx + bitlen ≤ 64)
    (hones : ∀ j, startidx ≤ j → j < startidx + bitlen →
      purge.getLsbD j = true) (arena : Arena) :
    Arena.purgeRange env idx (startidx + bitlen) bitlen purge 64 startidx false
        arena =
      (true, arena.purge env (64 * idx + startidx) bitlen) := by
  have hcount : Arena.countOnes purge (startidx + bitlen) 64 startidx =
      bitlen := by
    rcases @countOnes_spec purge (startidx + bitlen) 64 startidx (by omega)
      (by omega) with ⟨hle, -, hnext⟩
    by_contra hne
    have hlt : startidx + Arena.countOnes purge (startidx + bitlen) 64 startidx <
        startidx + bitlen := by omega
    have hzero := hnext hlt
    rw [hones _ (by omega) hlt] at hzero
    cases hzero
  rw [Arena.purgeRange, if_pos (by omega)]
  dsimp only
  rw [hcount, if_pos hpos, Arena.purgeRange, if_neg (by omega)]
  simp

/-! ## The walk over a field -/

theorem Arena.getLsbD_purgeField (arena : Arena) (i : ℕ) {j : ℕ}
    (hj : j < 64) :
    (arena.purgeField i).getLsbD j = arena.scheduled (64 * i + j) := by
  unfold purgeField scheduled
  cases arena.blocksPurge with
  | none => exact BitVec.getLsbD_zero
  | some map => exact (bit_field hj).symm

structure PurgesRanges (arena : Arena) (lo hi : ℕ)
    (ranges : List (ℕ × ℕ)) : Prop where
  nonempty : ∀ range ∈ ranges, 0 < range.2
  free : ∀ b, Covered ranges b →
    lo ≤ b ∧ b < hi ∧ arena.scheduled b = true ∧
      bit arena.blocksInuse b = false
  all : ∀ b, lo ≤ b → b < hi → arena.scheduled b = true →
    bit arena.blocksInuse b = false → Covered ranges b

variable {lo mid hi b : ℕ} {ranges ranges' : List (ℕ × ℕ)}

theorem PurgesRanges.of_nothing
    (hnone : ∀ b, lo ≤ b → b < hi → arena.scheduled b = true →
      bit arena.blocksInuse b = true) :
    PurgesRanges arena lo hi [] := by
  constructor
  · intro range hrange
    cases hrange
  · intro b hcovered
    rcases hcovered with ⟨range, hrange, -⟩
    cases hrange
  · intro b hlo hhi hscheduled hfree
    rw [hnone b hlo hhi hscheduled] at hfree
    cases hfree

theorem PurgesRanges.append (env : ArenaEnv) (hlo : lo ≤ mid)
    (hhi : mid ≤ hi)
    (hfirst : PurgesRanges arena lo mid ranges)
    (hrest : PurgesRanges (arena.purgeAll env ranges) mid hi ranges') :
    PurgesRanges arena lo hi (ranges ++ ranges') := by
  have hinuse := (arena.purgeAll_frame env ranges).1
  constructor
  · intro range hrange
    rcases List.mem_append.mp hrange with hrange | hrange
    · exact hfirst.nonempty range hrange
    · exact hrest.nonempty range hrange
  · intro b hcovered
    rcases covered_append.mp hcovered with hcovered | hcovered
    · rcases hfirst.free b hcovered with ⟨hge, hlt, hscheduled, hfree⟩
      exact ⟨hge, by omega, hscheduled, hfree⟩
    · rcases hrest.free b hcovered with ⟨hge, hlt, hscheduled, hfree⟩
      rw [Arena.purgeAll_scheduled] at hscheduled
      rw [hinuse] at hfree
      exact ⟨by omega, hlt, hscheduled.1, hfree⟩
  · intro b hge hlt hscheduled hfree
    rw [covered_append]
    by_cases hcovered : Covered ranges b
    · exact Or.inl hcovered
    · have hmid : mid ≤ b := by
        by_contra hbefore
        exact hcovered (hfirst.all b hge (by omega) hscheduled hfree)
      apply Or.inr
      apply hrest.all b hmid hlt
      · exact (arena.purgeAll_scheduled env ranges b).mpr
          ⟨hscheduled, hcovered⟩
      · rw [hinuse]
        exact hfree

theorem PurgesRanges.isEmpty_iff (hpurges : PurgesRanges arena lo hi ranges) :
    ranges.isEmpty = true ↔
      ¬ ∃ b, lo ≤ b ∧ b < hi ∧ arena.scheduled b = true ∧
        bit arena.blocksInuse b = false := by
  rw [List.isEmpty_iff]
  constructor
  · rintro rfl ⟨b, hlo, hhi, hscheduled, hfree⟩
    rcases hpurges.all b hlo hhi hscheduled hfree with ⟨range, hrange, -⟩
    cases hrange
  · intro hnone
    cases ranges with
    | nil => rfl
    | cons range ranges =>
        have hpos := hpurges.nonempty range List.mem_cons_self
        have hcovered : Covered (range :: ranges) range.1 :=
          ⟨range, List.mem_cons_self, le_rfl, by omega⟩
        exact absurd ⟨range.1, hpurges.free _ hcovered⟩ hnone

/-- One claimed prefix of a run of scheduled blocks. -/
theorem purgesRanges_prefix {i bitidx len : ℕ} {purge : BitVec 64}
    (hbitidx : bitidx < 64)
    (hpurge : ∀ j, bitidx ≤ j → j < 64 →
      purge.getLsbD j = arena.scheduled (64 * i + j))
    (hlen : len ≤ Arena.countOnes purge 64 64 bitidx)
    (hclear : Clear arena.blocksInuse (64 * i + bitidx)
      (64 * i + bitidx + len))
    (hnext : len < Arena.countOnes purge 64 64 bitidx →
      bit arena.blocksInuse (64 * i + bitidx + len) = true) :
    PurgesRanges arena (64 * i + bitidx)
      (64 * i + min (bitidx + (len + 1)) 64)
      (if 0 < len then [(64 * i + bitidx, len)] else []) := by
  rcases @countOnes_spec purge 64 64 bitidx (by omega) (by omega) with
    ⟨hend, hones, hzero⟩
  -- the block after the prefix is not scheduled, or it is in use
  have hafter : bitidx + len < 64 →
      arena.scheduled (64 * i + bitidx + len) = true →
      bit arena.blocksInuse (64 * i + bitidx + len) = true := by
    intro hin hscheduled
    apply hnext
    by_contra hge
    have hcount : Arena.countOnes purge 64 64 bitidx = len := by omega
    rw [hcount] at hzero
    have hbit := hzero hin
    rw [hpurge _ (by omega) hin, ← Nat.add_assoc, hscheduled] at hbit
    cases hbit
  by_cases hpos : 0 < len
  · rw [if_pos hpos]
    constructor
    · intro range hrange
      rw [List.mem_singleton.mp hrange]
      exact hpos
    · intro b hcovered
      rcases hcovered with ⟨range, hrange, hge, hlt⟩
      rw [List.mem_singleton.mp hrange] at hge hlt
      dsimp only at hge hlt
      have hbit := hones (b - 64 * i) (by omega) (by omega)
      rw [hpurge _ (by omega) (by omega)] at hbit
      have hb : 64 * i + (b - 64 * i) = b := by omega
      rw [hb] at hbit
      exact ⟨hge, by omega, hbit, hclear b hge hlt⟩
    · intro b hge hlt hscheduled hfree
      by_cases hin : b < 64 * i + bitidx + len
      · exact ⟨_, List.mem_singleton_self _, hge, hin⟩
      · have hb : b = 64 * i + bitidx + len := by omega
        rw [hb] at hscheduled hfree
        rw [hafter (by omega) hscheduled] at hfree
        cases hfree
  · rw [if_neg hpos]
    apply PurgesRanges.of_nothing
    intro b hge hlt hscheduled
    have hb : b = 64 * i + bitidx + len := by omega
    rw [hb] at hscheduled ⊢
    exact hafter (by omega) hscheduled

theorem purgesRanges_end {i bitidx : ℕ} (hge : 64 ≤ bitidx) :
    PurgesRanges arena (64 * i + min bitidx 64) (64 * i + 64) [] := by
  apply PurgesRanges.of_nothing
  intro b hlo hhi
  omega

/-- Every run of scheduled blocks is purged except for what is in use. -/
theorem purgeRuns_spec (env : ArenaEnv) (i : ℕ) {fuel bitidx : ℕ}
    {purge : BitVec 64} (anyPurged fullPurge : Bool) (arena : Arena)
    (hfuel : 64 ≤ fuel + bitidx)
    (hpurge : ∀ j, bitidx ≤ j → j < 64 →
      purge.getLsbD j = arena.scheduled (64 * i + j)) :
    ∃ ranges, Arena.purgeRuns env i fuel bitidx purge anyPurged fullPurge
        arena =
        (anyPurged || !ranges.isEmpty, fullPurge,
          arena.purgeAll env ranges) ∧
      PurgesRanges arena (64 * i + min bitidx 64) (64 * i + 64) ranges := by
  induction fuel generalizing bitidx purge anyPurged fullPurge arena with
  | zero =>
      refine ⟨[], ?_, purgesRanges_end (by omega)⟩
      simp [Arena.purgeRuns, Arena.purgeAll]
  | succ fuel ih =>
      unfold Arena.purgeRuns
      by_cases hbitidx : bitidx < 64
      swap
      · rw [if_neg hbitidx]
        refine ⟨[], ?_, purgesRanges_end (by omega)⟩
        simp [Arena.purgeAll]
      rw [if_pos hbitidx]
      have hle := countOnes_le purge 64 64 bitidx
      have hones := (@countOnes_spec purge 64 64 bitidx (by omega)
        (by omega)).2.1
      rcases @claimLongest_spec (64 * i + bitidx) arena.blocksInuse
        (Arena.countOnes purge 64 64 bitidx) (by omega) with
        ⟨len, inuse, hclaim, hlen, hclear, hsets, hnext⟩
      rw [hclaim]
      dsimp only
      have hfirst := purgesRanges_prefix hbitidx hpurge hlen hclear hnext
      have hmin : min bitidx 64 = bitidx := by omega
      rw [hmin]
      by_cases hpos : 0 < len
      · rw [if_pos hpos] at hfirst ⊢
        have hmask : ∀ j, bitidx ≤ j → j < bitidx + len →
            (arena.purgeField i).getLsbD j = true := by
          intro j hj hj'
          rw [arena.getLsbD_purgeField i (by omega), ← hpurge j hj (by omega)]
          exact hones j hj (by omega)
        have hrange : Arena.purgeRange env i (bitidx + len) len
            (Arena.purgeField { arena with blocksInuse := inuse } i) 64 bitidx
            false { arena with blocksInuse := inuse } = _ :=
          purgeRange_ones env i hpos (by omega) hmask _
        have hrestored : (bitmapUnclaim inuse len (64 * i + bitidx)).2 =
            arena.blocksInuse :=
          hsets.undo (bitmapUnclaim_spec inuse (by omega)) hclear
        have hback :
            { Arena.purge { arena with blocksInuse := inuse } env
                (64 * i + bitidx) len with
              blocksInuse :=
                (bitmapUnclaim inuse len (64 * i + bitidx)).2 } =
            arena.purge env (64 * i + bitidx) len := by
          rw [hrestored]
          rfl
        rw [hrange]
        dsimp only [Bool.and_true]
        have hpurge' : ∀ j, bitidx + (len + 1) ≤ j → j < 64 →
            (arena.purgeField i).getLsbD j =
              (arena.purge env (64 * i + bitidx) len).scheduled
                (64 * i + j) := by
          intro j hj hj'
          have hout : ¬ (64 * i + bitidx ≤ 64 * i + j ∧
              64 * i + j < 64 * i + bitidx + len) := by omega
          rw [Arena.purge_scheduled, decide_eq_false hout, Bool.not_false,
            Bool.and_true]
          exact arena.getLsbD_purgeField i hj'
        rcases ih true fullPurge (arena.purge env (64 * i + bitidx) len)
          (by omega) hpurge' with
          ⟨ranges, heq, hrest⟩
        refine ⟨(64 * i + bitidx, len) :: ranges, ?_,
          hfirst.append env (by omega) (by omega) hrest⟩
        rw [Bool.and_true]
        exact (congrArg _ hback).trans (heq.trans (by simp [Arena.purgeAll]))
      · rw [if_neg hpos] at hfirst ⊢
        have hpurge' : ∀ j, bitidx + (len + 1) ≤ j → j < 64 →
            purge.getLsbD j = arena.scheduled (64 * i + j) :=
          fun j hj hj' => hpurge j (by omega) hj'
        rcases ih anyPurged fullPurge arena (by omega) hpurge' with ⟨ranges, heq, hrest⟩
        exact ⟨ranges, heq, hfirst.append env (by omega) (by omega) hrest⟩

/-! ## The walk over the bitmap -/

theorem purgesRanges_field {i : ℕ} (hzero : arena.purgeField i = 0) :
    PurgesRanges arena (64 * i) (64 * i + 64) [] := by
  apply PurgesRanges.of_nothing
  intro b hlo hhi hscheduled
  have hj := arena.getLsbD_purgeField i (show b - 64 * i < 64 by omega)
  have hb : 64 * i + (b - 64 * i) = b := by omega
  rw [hb, hscheduled, hzero] at hj
  simp at hj

theorem purgeFields_spec (env : ArenaEnv) (left i : ℕ)
    (anyPurged fullPurge : Bool) (arena : Arena) :
    ∃ ranges, Arena.purgeFields env left i anyPurged fullPurge arena =
        (anyPurged || !ranges.isEmpty, fullPurge,
          arena.purgeAll env ranges) ∧
      PurgesRanges arena (64 * i) (64 * (i + left)) ranges := by
  induction left generalizing i anyPurged fullPurge arena with
  | zero =>
      refine ⟨[], ?_, ?_⟩
      · simp [Arena.purgeFields, Arena.purgeAll]
      · apply PurgesRanges.of_nothing
        intro b hlo hhi
        omega
  | succ left ih =>
      have hend : 64 * (i + 1 + left) = 64 * (i + (left + 1)) := by omega
      unfold Arena.purgeFields
      dsimp only
      by_cases hzero : arena.purgeField i = 0
      · rw [if_neg (not_not.mpr hzero)]
        rcases ih (i + 1) anyPurged fullPurge arena with ⟨ranges, heq, hrest⟩
        rw [hend] at hrest
        exact ⟨ranges, heq, (purgesRanges_field hzero).append env (by omega)
          (by omega) hrest⟩
      · rw [if_pos hzero]
        rcases purgeRuns_spec env i anyPurged fullPurge arena
          (show 64 ≤ 64 + 0 by omega)
          (fun j _ hj => arena.getLsbD_purgeField i hj) with
          ⟨first, hruns, hfirst⟩
        rw [hruns]
        dsimp only
        rcases ih (i + 1) (anyPurged || !first.isEmpty) fullPurge
          (arena.purgeAll env first) with ⟨ranges, heq, hrest⟩
        rw [hend] at hrest
        refine ⟨first ++ ranges, ?_, hfirst.append env (by omega) (by omega)
          hrest⟩
        have hany : (first ++ ranges).isEmpty =
            (first.isEmpty && ranges.isEmpty) := by
          cases first with
          | nil => rfl
          | cons range rest => rfl
        rw [heq, Arena.purgeAll_append, Bool.or_assoc, hany, Bool.not_and]

/-! ## Purging one arena -/

def Arena.Expired (arena : Arena) (now : ℤ) : Prop :=
  arena.purgeExpire ≠ 0 ∧ arena.purgeExpire ≤ now

instance (arena : Arena) (now : ℤ) : Decidable (arena.Expired now) :=
  inferInstanceAs (Decidable (_ ∧ _))

theorem Arena.tryPurge_unexpired (hexpired : ¬ arena.Expired env.now) :
    arena.tryPurge env false = (false, arena) := by
  unfold tryPurge
  by_cases hpinned : arena.isPinned = true
  · rw [if_pos hpinned]
  · have hskip : ¬ (false = true) ∧
        (arena.purgeExpire = 0 ∨ env.now < arena.purgeExpire) := by
      unfold Expired at hexpired
      refine ⟨by decide, ?_⟩
      omega
    rw [if_neg hpinned, if_pos hskip]

theorem Arena.tryPurge_expired (hpinned : arena.isPinned = false)
    (hexpired : arena.Expired env.now) :
    ∃ ranges, arena.tryPurge env false =
        (!ranges.isEmpty,
          Arena.purgeAll env { arena with purgeExpire := 0 } ranges) ∧
      PurgesRanges arena 0 (64 * arena.fieldCount) ranges := by
  have hgo : ¬ (¬ (false = true) ∧
      (arena.purgeExpire = 0 ∨ env.now < arena.purgeExpire)) := by
    unfold Expired at hexpired
    intro hskip
    have hor := hskip.2
    omega
  rcases purgeFields_spec env arena.fieldCount 0 false true
    { arena with purgeExpire := 0 } with ⟨ranges, heq, hpurges⟩
  refine ⟨ranges, ?_, ?_⟩
  · unfold tryPurge
    rw [if_neg (by simp [hpinned]), if_neg hgo, heq]
    rfl
  · rw [Nat.zero_add] at hpurges
    exact ⟨hpurges.nonempty, hpurges.free, hpurges.all⟩

end Palloc
