import Palloc.CommitMaskRuns
import Mathlib.Data.List.Pairwise

/-!
# Iterating a commit mask

`pa_commit_mask_foreach` asks `_pa_commit_mask_next_run` for one run of set
bits after another.  This file has its loop, and that of
`pa_commit_mask_create`, with fuel, and finds the runs that it yields: the
maximal ones, in increasing order, and all of them.
-/

namespace Palloc

namespace CommitMask

/-! ## The loops -/

/-- The loop of `pa_commit_mask_foreach` from `idx` on: the runs for which the
body is entered. -/
def foreachLoop (cm : CommitMask) : (fuel : ℕ) → (idx : ℕ) →
    Option (List (ℕ × ℕ))
  | 0, _ => none
  | fuel + 1, idx =>
      match cm.nextRunLoop idx with
      | none => none
      | some (idx, count) =>
          if 0 < count then
            (cm.foreachLoop fuel (idx + count)).map fun runs =>
              (idx, count) :: runs
          else some []

/-- The loop of `pa_commit_mask_create`; `none` also for a write behind the
last field. -/
def createLoop : (fuel : ℕ) → (i ofs bitcount : ℕ) → CommitMask →
    Option CommitMask
  | 0, _, _, _, _ => none
  | fuel + 1, i, ofs, bitcount, cm =>
      if bitcount = 0 then some cm
      else if i < 8 then
        let avail := commitMaskFieldBits - ofs
        let count := if avail < bitcount then avail else bitcount
        let mask :=
          if commitMaskFieldBits ≤ count then BitVec.allOnes 64
          else ((1#64 <<< count) - 1#64) <<< ofs
        createLoop fuel (i + 1) 0 (bitcount - count) (cm.setField i mask)
      else none

/-- `pa_commit_mask_create`. -/
def createMask (fuel bitidx bitcount : ℕ) : Option CommitMask :=
  if bitcount = commitMaskBits then some createFull
  else if bitcount = 0 then some createEmpty
  else
    createLoop fuel (bitidx / commitMaskFieldBits)
      (bitidx % commitMaskFieldBits) bitcount createEmpty

variable {cm : CommitMask} {mask : BitVec 64}

/-! ## One run -/

structure MaximalRun (cm : CommitMask) (run : ℕ × ℕ) : Prop where
  count_pos : 0 < run.2
  inside : ∀ bit, run.1 ≤ bit → bit < run.1 + run.2 →
    cm.getBit bit = true
  before : 0 < run.1 → cm.getBit (run.1 - 1) = false
  after : cm.getBit (run.1 + run.2) = false

theorem nextRunLoop_spec {idx : ℕ} (hidx : idx ≤ 512)
    (hstart : 0 < idx → idx < 512 → cm.getBit (idx - 1) = false ∨
      cm.getBit idx = false) :
    (cm.nextRunLoop idx = some (512, 0) ∧ cm.ClearBetween idx 512) ∨
    ∃ run, cm.nextRunLoop idx = some run ∧ idx ≤ run.1 ∧
      run.1 + run.2 ≤ 512 ∧ cm.ClearBetween idx run.1 ∧
      cm.MaximalRun run := by
  rcases cm.nextRunLoop_cases hidx with
    hnone | ⟨run, hsome, hle, hend, hclear, hpos, hbits, hafter⟩
  · exact .inl hnone
  · refine .inr ⟨run, hsome, hle, hend, hclear, hpos, hbits, ?_, hafter⟩
    intro hpos'
    by_cases heq : idx = run.1
    · rcases hstart (by omega) (by omega) with hbefore | hnow
      · rw [← heq]
        exact hbefore
      · rw [heq, hbits run.1 le_rfl (by omega)] at hnow
        cases hnow
    · exact hclear _ (by omega) (by omega)

/-! ## All runs -/

theorem getBit_of_ge {bit : ℕ} (hbit : 512 ≤ bit) :
    cm.getBit bit = false := by
  unfold getBit
  rw [dif_neg (by omega)]

theorem foreachLoop_spec {fuel idx : ℕ} (hidx : idx ≤ 512)
    (hfuel : 512 < fuel + idx)
    (hstart : 0 < idx → cm.getBit idx = false) :
    ∃ runs, cm.foreachLoop fuel idx = some runs ∧
      (∀ run ∈ runs, idx ≤ run.1 ∧ cm.MaximalRun run) ∧
      runs.Pairwise (fun run next => run.1 + run.2 < next.1) ∧
      ∀ bit, idx ≤ bit → (cm.getBit bit = true ↔
        ∃ run ∈ runs, run.1 ≤ bit ∧ bit < run.1 + run.2) := by
  induction fuel generalizing idx with
  | zero => omega
  | succ fuel ih =>
      unfold foreachLoop
      rcases nextRunLoop_spec hidx (fun hpos _ => .inr (hstart hpos)) with
        ⟨hnone, hclear⟩ | ⟨⟨first, count⟩, hsome, hle, hend, hclear, hmax⟩
      · rw [hnone]
        refine ⟨[], rfl, by simp, .nil, ?_⟩
        intro bit hlo
        have hbit : cm.getBit bit = false := by
          by_cases hin : bit < 512
          · exact hclear bit hlo hin
          · exact getBit_of_ge (not_lt.mp hin)
        simp [hbit]
      · rw [hsome]
        have hpos := hmax.count_pos
        have hafter := hmax.after
        dsimp only at hle hend hclear hpos hafter ⊢
        rw [if_pos hpos]
        obtain ⟨runs, heq, hruns, hpair, hbits⟩ :=
          @ih (first + count) hend (by omega) (fun _ => hafter)
        rw [heq]
        refine ⟨(first, count) :: runs, rfl, ?_, ?_, ?_⟩
        · intro run hrun
          rcases List.mem_cons.mp hrun with rfl | hrun
          · exact ⟨hle, hmax⟩
          · obtain ⟨hge, hmax'⟩ := hruns run hrun
            exact ⟨by omega, hmax'⟩
        · refine List.pairwise_cons.mpr ⟨?_, hpair⟩
          intro next hnext
          obtain ⟨hge, hmax'⟩ := hruns next hnext
          have hset := hmax'.inside next.1 le_rfl
            (Nat.lt_add_of_pos_right hmax'.count_pos)
          -- the bit behind a run is clear, so the next one starts later
          have hne : next.1 ≠ first + count := by
            intro hcontra
            rw [hcontra, hafter] at hset
            cases hset
          dsimp only
          omega
        · intro bit hlo
          rw [List.exists_mem_cons_iff]
          dsimp only
          by_cases hbefore : bit < first
          · rw [hclear bit hlo hbefore]
            simp only [Bool.false_eq_true, false_iff, not_or, not_and,
              not_lt, not_exists]
            refine ⟨fun hcontra => by omega, fun run hrun hcontra => ?_⟩
            have hge := (hruns run hrun).1
            omega
          · by_cases hrun : bit < first + count
            · have hset := hmax.inside bit (not_lt.mp hbefore) hrun
              rw [hset]
              simp only [true_iff]
              exact .inl ⟨not_lt.mp hbefore, hrun⟩
            · rw [hbits bit (not_lt.mp hrun), or_iff_right]
              rintro ⟨_, hcontra⟩
              exact hrun hcontra

/-! ## Creating a mask -/

theorem createLoop_eq {fuel fuel' i ofs bitcount : ℕ} {cm : CommitMask}
    (hfuel : 8 < fuel + i) (hfuel' : bitcount ≤ fuel') (hi : i ≤ 8)
    (hofs : ofs < 64)
    (hend : bitcount = 0 ∨ 64 * i + ofs + bitcount ≤ 512) :
    createLoop fuel i ofs bitcount cm =
      some (createFields fuel' i ofs bitcount cm) := by
  induction fuel generalizing fuel' i ofs bitcount cm with
  | zero => omega
  | succ fuel ih =>
      unfold createLoop
      cases fuel' with
      | zero =>
          rw [if_pos (Nat.le_zero.mp hfuel')]
          rfl
      | succ fuel' =>
          unfold createFields
          by_cases hzero : bitcount = 0
          · rw [if_pos hzero, if_pos hzero]
          · have hin : i < 8 := by omega
            rw [if_neg hzero, if_neg hzero, if_pos hin]
            dsimp only [commitMaskFieldBits]
            apply ih
            · omega
            · split <;> omega
            · exact hin
            · decide
            · split <;> omega

theorem createMask_eq {fuel bitidx bitcount : ℕ} (hfuel : 8 < fuel)
    (hend : bitidx + bitcount ≤ 512) :
    createMask fuel bitidx bitcount = some (create bitidx bitcount) := by
  unfold createMask create
  by_cases hfull : bitcount = commitMaskBits
  · rw [if_pos hfull, if_pos hfull]
  · by_cases hzero : bitcount = 0
    · rw [if_neg hfull, if_neg hfull, if_pos hzero, if_pos hzero]
    · rw [if_neg hfull, if_neg hfull, if_neg hzero, if_neg hzero]
      dsimp only [commitMaskFieldBits]
      exact createLoop_eq (by omega) le_rfl (by omega) (by omega)
        (.inr (by omega))

/-! ## The claim of both -/

/-- The iteration ends with the maximal runs of set bits, in increasing order,
and a created mask has the bits of its range. -/
theorem foreach_maximal_runs :
    (∀ (cm : CommitMask) (fuel : ℕ), 512 < fuel →
      ∃ runs, cm.foreachLoop fuel 0 = some runs ∧
        (∀ run ∈ runs, cm.MaximalRun run) ∧
        runs.Pairwise (fun run next => run.1 + run.2 < next.1) ∧
        ∀ bit, cm.getBit bit = true ↔
          ∃ run ∈ runs, run.1 ≤ bit ∧ bit < run.1 + run.2) ∧
    ∀ bitidx bitcount fuel : ℕ, bitidx + bitcount ≤ commitMaskBits →
      8 < fuel →
      ∃ cm, createMask fuel bitidx bitcount = some cm ∧
        ∀ bit, cm.getBit bit =
          decide (bitidx ≤ bit ∧ bit < bitidx + bitcount) := by
  constructor
  · intro cm fuel hfuel
    obtain ⟨runs, heq, hruns, hpair, hbits⟩ :=
      foreachLoop_spec (Nat.zero_le _) hfuel
        (fun hpos => absurd hpos (lt_irrefl 0))
    exact ⟨runs, heq, fun run hrun => (hruns run hrun).2, hpair,
      fun bit => hbits bit (Nat.zero_le bit)⟩
  · intro bitidx bitcount fuel hend hfuel
    refine ⟨create bitidx bitcount, createMask_eq hfuel hend, ?_⟩
    intro bit
    by_cases hbit : bit < 512
    · exact getBit_create hend hbit
    · have hout : ¬ (bitidx ≤ bit ∧ bit < bitidx + bitcount) :=
        fun hin => hbit (hin.2.trans_le hend)
      rw [getBit_of_ge (not_lt.mp hbit), decide_eq_false hout]

/-- A mask with a run over a field boundary and one up to the last bit. -/
theorem foreach_maximal_runs_create :
    ∃ cm, createMask 9 60 10 = some cm ∧
      ∃ runs, (cm.set (create 500 12)).foreachLoop 513 0 = some runs ∧
        ∀ run ∈ runs, (cm.set (create 500 12)).MaximalRun run := by
  obtain ⟨cm, hcreate, -⟩ :=
    foreach_maximal_runs.2 60 10 9 (by decide) (by decide)
  obtain ⟨runs, heq, hruns, -⟩ :=
    foreach_maximal_runs.1 (cm.set (create 500 12)) 513 (by decide)
  exact ⟨cm, hcreate, runs, heq, hruns⟩

end CommitMask

end Palloc
