import Palloc.CommitMask
import Mathlib.Tactic

/-!
# Runs of set bits

`_pa_commit_mask_next_run` ends, and finds the next run of set bits up to a
clear one.
-/

namespace Palloc

namespace CommitMask

variable {cm : CommitMask} {mask : BitVec 64}

theorem and_one_eq_zero_iff :
    mask &&& 1 = 0 ↔ mask.getLsbD 0 = false := by
  constructor
  · intro hzero
    have hbit : (mask &&& 1).getLsbD 0 = false := by
      rw [hzero]
      rfl
    simpa using hbit
  · intro hbit
    apply BitVec.eq_of_getLsbD_eq
    intro j hj
    by_cases hfirst : j = 0
    · subst hfirst
      simpa using hbit
    · simp [hfirst]

theorem and_one_eq_one_iff :
    mask &&& 1 = 1 ↔ mask.getLsbD 0 = true := by
  constructor
  · intro hone
    have hbit : (mask &&& 1).getLsbD 0 = true := by
      rw [hone]
      rfl
    simpa using hbit
  · intro hbit
    apply BitVec.eq_of_getLsbD_eq
    intro j hj
    by_cases hfirst : j = 0
    · subst hfirst
      simpa using hbit
    · simp [hfirst]

theorem shift_shift (mask : BitVec 64) (k : ℕ) :
    mask >>> 1 >>> k = mask >>> (k + 1) := by
  rw [← BitVec.shiftRight_add, Nat.add_comm]

/-! ## Finding the first set bit -/

theorem skipZerosLoop_spec {fuel j : ℕ} (hbit : mask.getLsbD j = true)
    (hfuel : j < fuel) (ofs : ℕ) :
    ∃ k, skipZerosLoop fuel mask ofs = some (mask >>> k, ofs + k) ∧
      mask.getLsbD k = true ∧ ∀ i < k, mask.getLsbD i = false := by
  induction fuel generalizing mask j ofs with
  | zero => omega
  | succ fuel ih =>
      unfold skipZerosLoop
      by_cases hzero : mask &&& 1 = 0
      · have hfirst := and_one_eq_zero_iff.mp hzero
        have hpos : j ≠ 0 := by
          rintro rfl
          rw [hfirst] at hbit
          cases hbit
        have hshift : (mask >>> 1).getLsbD (j - 1) = true := by
          rw [BitVec.getLsbD_ushiftRight, Nat.add_sub_of_le (by omega)]
          exact hbit
        obtain ⟨k, heq, hset, hclear⟩ := ih hshift (by omega) (ofs + 1)
        rw [shift_shift] at heq
        rw [BitVec.getLsbD_ushiftRight, Nat.add_comm] at hset
        refine ⟨k + 1, ?_, hset, ?_⟩
        · rw [if_pos hzero, heq, Nat.add_right_comm]
          rfl
        · intro i hi
          by_cases hcase : i = 0
          · rw [hcase]
            exact hfirst
          · have hbelow := hclear (i - 1) (by omega)
            rw [BitVec.getLsbD_ushiftRight, Nat.add_sub_of_le (by omega)]
              at hbelow
            exact hbelow
      · rw [if_neg hzero]
        rw [and_one_eq_zero_iff, Bool.not_eq_false] at hzero
        exact ⟨0, by simp, hzero, fun i hi => by omega⟩

/-- No bit of the mask is set from `lo` up to `hi`. -/
def ClearBetween (cm : CommitMask) (lo hi : ℕ) : Prop :=
  ∀ bit, lo ≤ bit → bit < hi → cm.getBit bit = false

theorem ClearBetween.append {lo mid hi : ℕ} (h : cm.ClearBetween lo mid)
    (h' : cm.ClearBetween mid hi) : cm.ClearBetween lo hi := by
  intro bit hlo hhi
  by_cases hmid : bit < mid
  · exact h bit hlo hmid
  · exact h' bit (not_lt.mp hmid) hhi

theorem getBit_shifted {i ofs j : ℕ} (hi : i < 8) (hj : ofs + j < 64) :
    cm.getBit (64 * i + ofs + j) =
      (cm.mask ⟨i, hi⟩ >>> ofs).getLsbD j := by
  rw [BitVec.getLsbD_ushiftRight, Nat.add_assoc]
  exact cm.getBit_field ⟨i, hi⟩ hj

theorem findOnesLoop_spec {fuel i ofs : ℕ} (hi8 : i ≤ 8)
    (hfuel : 8 < fuel + i) (hofs : ofs < 64) :
    (cm.findOnesLoop fuel i ofs = some none ∧
      cm.ClearBetween (64 * i + ofs) 512) ∨
    ∃ i' ofs', ∃ h : i' < 8,
      cm.findOnesLoop fuel i ofs =
        some (some (i', ofs', cm.mask ⟨i', h⟩ >>> ofs')) ∧
      ofs' < 64 ∧ 64 * i + ofs ≤ 64 * i' + ofs' ∧
      cm.ClearBetween (64 * i + ofs) (64 * i' + ofs') ∧
      cm.getBit (64 * i' + ofs') = true := by
  induction fuel generalizing i ofs with
  | zero => omega
  | succ fuel ih =>
      unfold findOnesLoop
      by_cases hi : i < 8
      · rw [dif_pos hi]
        dsimp only
        by_cases hzero : cm.mask ⟨i, hi⟩ >>> ofs = 0
        · have hfield : cm.ClearBetween (64 * i + ofs) (64 * (i + 1) + 0) := by
            intro bit hlo hhi
            have hbit : bit = 64 * i + ofs + (bit - (64 * i + ofs)) := by
              omega
            rw [hbit, getBit_shifted hi (by omega), hzero]
            exact BitVec.getLsbD_zero
          rw [if_neg (not_not.mpr hzero)]
          rcases @ih (i + 1) 0 hi (by omega) (by omega) with
            ⟨hnone, hclear⟩ | ⟨i', ofs', h, hsome, hofs', hle, hclear, hset⟩
          · exact .inl ⟨hnone, hfield.append hclear⟩
          · exact .inr ⟨i', ofs', h, hsome, hofs', by omega,
              hfield.append hclear, hset⟩
        · rw [if_pos hzero]
          right
          obtain ⟨j, hbit⟩ : ∃ j,
              (cm.mask ⟨i, hi⟩ >>> ofs).getLsbD j = true := by
            by_contra hnone
            apply hzero
            apply BitVec.eq_of_getLsbD_eq
            intro j _
            rw [Bool.eq_false_iff.mpr fun hset => hnone ⟨j, hset⟩]
            exact BitVec.getLsbD_zero.symm
          have hj := BitVec.lt_of_getLsbD hbit
          obtain ⟨k, heq, hset, hclear⟩ := skipZerosLoop_spec hbit hj ofs
          have hk := hset
          rw [BitVec.getLsbD_ushiftRight] at hk
          have hk64 := BitVec.lt_of_getLsbD hk
          refine ⟨i, ofs + k, hi, ?_, hk64, by omega, ?_, ?_⟩
          · rw [heq, ← BitVec.shiftRight_add]
            rfl
          · intro bit hlo hhi
            have hindex : bit = 64 * i + ofs + (bit - (64 * i + ofs)) := by
              omega
            rw [hindex, getBit_shifted hi (by omega)]
            exact hclear _ (by omega)
          · rw [← Nat.add_assoc, getBit_shifted hi (by omega)]
            exact hset
      · rw [dif_neg hi]
        refine .inl ⟨rfl, fun bit hlo hhi => by omega⟩

/-! ## Counting a run -/

theorem countOnesLoop_spec {fuel p : ℕ} (hfirst : mask.getLsbD 0 = true)
    (hclear : ∀ j, p ≤ j → mask.getLsbD j = false) (hfuel : p ≤ fuel)
    (count : ℕ) :
    ∃ k, countOnesLoop fuel mask count = some (mask >>> k, count + k) ∧
      0 < k ∧ (∀ j < k, mask.getLsbD j = true) ∧ mask.getLsbD k = false := by
  induction fuel generalizing mask p count with
  | zero =>
      rw [hclear 0 hfuel] at hfirst
      cases hfirst
  | succ fuel ih =>
      unfold countOnesLoop
      dsimp only
      have hshift : ∀ j, (mask >>> 1).getLsbD j = mask.getLsbD (j + 1) := by
        intro j
        rw [BitVec.getLsbD_ushiftRight, Nat.add_comm]
      by_cases hone : mask >>> 1 &&& 1 = 1
      · obtain ⟨k, heq, -, hbits, hend⟩ := ih (p := p - 1)
          (and_one_eq_one_iff.mp hone)
          (fun j hj => by rw [hshift]; exact hclear _ (by omega))
          (by omega) (count + 1)
        rw [shift_shift] at heq
        rw [hshift] at hend
        refine ⟨k + 1, ?_, k.succ_pos, ?_, hend⟩
        · rw [if_pos hone, heq, Nat.add_right_comm]
          rfl
        · intro j hj
          cases j with
          | zero => exact hfirst
          | succ j =>
              rw [← hshift]
              exact hbits j (by omega)
      · rw [if_neg hone]
        refine ⟨1, rfl, Nat.one_pos, ?_, ?_⟩
        · intro j hj
          rw [Nat.lt_one_iff.mp hj]
          exact hfirst
        · rw [and_one_eq_one_iff, hshift, Bool.not_eq_true] at hone
          exact hone

theorem countRunLoop_spec {idx fuel i ofs count : ℕ} (hi : i < 8)
    (hofs : ofs < 64) (hfuel : 8 ≤ fuel + i)
    (hat : idx + count = 64 * i + ofs)
    (hfirst : (cm.mask ⟨i, hi⟩ >>> ofs).getLsbD 0 = true)
    (hbits : ∀ bit, idx ≤ bit → bit < idx + count → cm.getBit bit = true) :
    ∃ total, cm.countRunLoop idx fuel i (cm.mask ⟨i, hi⟩ >>> ofs) count =
        some total ∧
      count < total ∧ idx + total ≤ 512 ∧
      (∀ bit, idx ≤ bit → bit < idx + total → cm.getBit bit = true) ∧
      cm.getBit (idx + total) = false := by
  induction fuel generalizing i ofs count with
  | zero => omega
  | succ fuel ih =>
      unfold countRunLoop
      have hwidth : ∀ j, 64 ≤ j →
          (cm.mask ⟨i, hi⟩ >>> ofs).getLsbD j = false :=
        fun j hj => BitVec.getLsbD_of_ge _ j hj
      obtain ⟨k, heq, hpos, hones, hend⟩ :=
        countOnesLoop_spec hfirst hwidth le_rfl count
      have hlast := hones (k - 1) (by omega)
      rw [BitVec.getLsbD_ushiftRight] at hlast
      have hk := BitVec.lt_of_getLsbD hlast
      have hbits' : ∀ bit, idx ≤ bit → bit < idx + (count + k) →
          cm.getBit bit = true := by
        intro bit hlo hhi
        by_cases hold : bit < idx + count
        · exact hbits bit hlo hold
        · have hindex : bit = 64 * i + ofs + (bit - (idx + count)) := by
            omega
          rw [hindex, getBit_shifted hi (by omega)]
          exact hones _ (by omega)
      have hmod : (idx + (count + k)) % 64 = 0 ↔ ofs + k = 64 := by omega
      rw [heq]
      dsimp only [commitMaskFieldBits]
      by_cases hcross : ofs + k = 64
      · have hstart : idx + (count + k) = 64 * (i + 1) + 0 := by omega
        rw [if_pos (hmod.mpr hcross)]
        by_cases hnext : i + 1 < 8
        · rw [dif_pos hnext]
          by_cases hone : cm.mask ⟨i + 1, hnext⟩ &&& 1 = 1
          · have hgo := ih hnext (by omega) (by omega) hstart (by
              simpa using and_one_eq_one_iff.mp hone) hbits'
            rw [BitVec.ushiftRight_zero] at hgo
            obtain ⟨total, hrun, hlt, hrest⟩ := hgo
            rw [if_pos hone]
            exact ⟨total, hrun, by omega, hrest⟩
          · rw [if_neg hone]
            refine ⟨count + k, rfl, by omega, by omega, hbits', ?_⟩
            rw [hstart, cm.getBit_field ⟨i + 1, hnext⟩ (by decide),
              ← Bool.not_eq_true, ← and_one_eq_one_iff]
            exact hone
        · rw [dif_neg hnext]
          refine ⟨count + k, rfl, by omega, by omega, hbits', ?_⟩
          unfold getBit
          rw [dif_neg (by omega)]
      · have hstop : ¬ cm.mask ⟨i, hi⟩ >>> ofs >>> k &&& 1 = 1 := by
          rw [and_one_eq_one_iff, BitVec.getLsbD_ushiftRight, Nat.add_zero,
            hend]
          decide
        rw [if_neg (hcross ∘ hmod.mp), if_neg hstop]
        refine ⟨count + k, rfl, by omega, by omega, hbits', ?_⟩
        have hindex : idx + (count + k) = 64 * i + ofs + k := by omega
        rw [hindex, getBit_shifted hi (by omega)]
        exact hend

/-! ## One run -/

/-- The next run starts at the first set bit and goes on to a clear bit, or
there is no set bit. -/
theorem nextRunLoop_cases (cm : CommitMask) {idx : ℕ} (hidx : idx ≤ 512) :
    (cm.nextRunLoop idx = some (512, 0) ∧ cm.ClearBetween idx 512) ∨
    ∃ run, cm.nextRunLoop idx = some run ∧ idx ≤ run.1 ∧
      run.1 + run.2 ≤ 512 ∧ cm.ClearBetween idx run.1 ∧ 0 < run.2 ∧
      (∀ bit, run.1 ≤ bit → bit < run.1 + run.2 → cm.getBit bit = true) ∧
      cm.getBit (run.1 + run.2) = false := by
  have hindex : 64 * (idx / 64) + idx % 64 = idx := by omega
  unfold nextRunLoop
  dsimp only [commitMaskFieldBits, commitMaskFieldCount, commitMaskBits]
  rcases @findOnesLoop_spec cm 9 (idx / 64) (idx % 64) (by omega) (by omega)
    (by omega) with
    ⟨hnone, hclear⟩ | ⟨i, ofs, h, hsome, hofs, hle, hclear, hset⟩
  · rw [hindex] at hclear
    rw [hnone]
    exact .inl ⟨rfl, hclear⟩
  · rw [hindex] at hle hclear
    rw [hsome]
    right
    have hcomm : i * 64 + ofs = 64 * i + ofs := by omega
    have hfirst : (cm.mask ⟨i, h⟩ >>> ofs).getLsbD 0 = true := by
      rw [← getBit_shifted h (by omega)]
      exact hset
    obtain ⟨total, hrun, hpos, hend, hbits, hafter⟩ :=
      @countRunLoop_spec cm (64 * i + ofs) 9 i ofs 0 h hofs (by omega) rfl
        hfirst (fun bit hlo hhi => by omega)
    refine ⟨(64 * i + ofs, total), ?_, hle, hend, hclear, hpos, hbits,
      hafter⟩
    dsimp only
    rw [hcomm, hrun, Option.map_some]

theorem nextRun_spec (cm : CommitMask) (idx : ℕ) :
    ∀ bit, (cm.nextRun idx).1 ≤ bit →
      bit < (cm.nextRun idx).1 + (cm.nextRun idx).2 →
      cm.getBit bit = true := by
  unfold nextRun
  by_cases hidx : idx ≤ 512
  · rcases cm.nextRunLoop_cases hidx with
      ⟨hnone, -⟩ | ⟨run, hsome, -, -, -, -, hbits, -⟩
    · rw [hnone]
      intro bit hge hlt
      exact absurd (hge.trans_lt hlt) (lt_irrefl _)
    · rw [hsome]
      exact hbits
  · -- behind the last field the loop has nothing to look at
    have hfield : ¬ idx / commitMaskFieldBits < 8 := by
      unfold commitMaskFieldBits
      omega
    have hnone : cm.nextRunLoop idx = some (commitMaskBits, 0) := by
      simp [nextRunLoop, findOnesLoop, hfield]
    rw [hnone]
    intro bit hge hlt
    exact absurd (hge.trans_lt hlt) (lt_irrefl _)

end CommitMask

end Palloc
