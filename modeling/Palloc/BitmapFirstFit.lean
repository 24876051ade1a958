import Palloc.BitmapSearch

/-!
# The first fit in a field

`_pa_bitmap_try_find_claim_field` moves its mask up by more than one bit at a
time.  This file has its loop with the mask that it carries and with fuel, for
both ways to build it: with the bit scans of the processor, and without them
from bit 0 on in steps of one.  It ends, and claims the lowest clear run.
-/

namespace Palloc

open BitFields

variable {map : BitVec 64} {bitmap : Fields} {count bitidx idx : ℕ}

structure FirstFit (bitmap : Fields) (idx count p : ℕ) : Prop where
  fits : p + count ≤ 64
  clear : Clear bitmap (64 * idx + p) (64 * idx + p + count)
  lowest : ∀ q < p, ¬ Clear bitmap (64 * idx + q) (64 * idx + q + count)

theorem ctz_not_lt (hfull : map ≠ BitVec.allOnes 64) :
    (~~~map).ctz.toNat < 64 := by
  have hne : ~~~map ≠ 0#64 := by
    intro hzero
    apply hfull
    have hnot := congrArg (fun field => ~~~field) hzero
    rw [BitVec.not_not, BitVec.not_zero] at hnot
    exact hnot
  exact BitVec.ctz_lt_iff_ne_zero.mpr hne

/-- The search of one field ends and claims the first fit, whichever way it
is built, and no move of its mask skips a run. -/
theorem try_find_claim_field_firstFit (fastBitscan : Bool) (bitmap : Fields)
    {idx count fuel : ℕ} (hpos : 0 < count) (hcount : count ≤ 63)
    (hfuel : 64 < fuel) :
    (∃ found bitmap', tryFindClaimFieldLoop fastBitscan fuel bitmap idx
        count = some (found, bitmap') ∧
      (found = none ∧ bitmap' = bitmap ∧
        (∀ p, p + count ≤ 64 →
          ¬ Clear bitmap (64 * idx + p) (64 * idx + p + count)) ∨
      ∃ p, found = some (64 * idx + p) ∧ FirstFit bitmap idx count p ∧
        Sets bitmap bitmap' (64 * idx + p) (64 * idx + p + count))) ∧
    ∀ bitidx p, bitidx + count ≤ 64 →
      bitmap idx &&& ones count bitidx ≠ 0 → bitidx ≤ p →
      p < bitidx + scanShift fastBitscan count
        (bitmap idx &&& ones count bitidx) bitidx →
      p + count ≤ 64 →
      ¬ Clear bitmap (64 * idx + p) (64 * idx + p + count) := by
  constructor
  · unfold tryFindClaimFieldLoop
    dsimp only
    by_cases hfull : bitmap idx = BitVec.allOnes 64
    · rw [if_pos hfull]
      refine ⟨none, bitmap, rfl, .inl ⟨rfl, rfl, ?_⟩⟩
      intro p hpfit
      rw [← and_ones_eq_zero_iff hpfit]
      have hbit : (bitmap idx).getLsbD p = true := by
        rw [hfull, BitVec.getLsbD_allOnes]
        exact decide_eq_true (by omega)
      exact and_ones_ne_zero hpfit hbit le_rfl (by omega)
    · rw [if_neg hfull]
      have hle := ctz_not_lt hfull
      generalize hstart :
        (if fastBitscan = true then (~~~bitmap idx).ctz.toNat else 0) = start
      have hstartLe : start ≤ (~~~bitmap idx).ctz.toNat := by
        rw [← hstart]
        split <;> omega
      have hbelow : ∀ p < start, p + count ≤ 64 →
          bitmap idx &&& ones count p ≠ 0 :=
        fun p hp hpfit => below_ctz hpos hpfit (hp.trans_le hstartLe)
      obtain ⟨found, heq, hfound⟩ := @scanLoop_spec (bitmap idx) count start
        fastBitscan fuel hpos (by omega) (by omega) (by omega)
      rw [heq]
      cases found with
      | none =>
          refine ⟨none, bitmap, rfl, .inl ⟨rfl, rfl, ?_⟩⟩
          intro p hpfit
          rw [← and_ones_eq_zero_iff hpfit]
          by_cases hlow : p < start
          · exact hbelow p hlow hpfit
          · exact hfound p (not_lt.mp hlow) hpfit
      | some found =>
          obtain ⟨p, newmap⟩ := found
          obtain ⟨hpfit, hzero, rfl, hlowest⟩ := hfound
          refine ⟨_, _, rfl, .inr ⟨p, rfl, ⟨hpfit, ?_, ?_⟩, sets_or hpfit⟩⟩
          · exact (and_ones_eq_zero_iff hpfit).mp hzero
          · intro q hq
            rw [← and_ones_eq_zero_iff (by omega)]
            by_cases hlow : q < start
            · exact hbelow q hlow (by omega)
            · exact hlowest q (not_lt.mp hlow) hq
  · intro bitidx p hfit hne hle hlt hpfit
    rw [← and_ones_eq_zero_iff hpfit]
    exact (scanShift_spec fastBitscan hpos hfit hne).2.2 p hle hlt hpfit

/-- Bits 1 and 4 of every field are taken. -/
theorem try_find_claim_field_firstFit_gap :
    ∃ p bitmap', tryFindClaimFieldLoop true 65 (fun _ => 18#64) 2 3 =
        some (some (64 * 2 + p), bitmap') ∧
      FirstFit (fun _ => 18#64) 2 3 p := by
  have hthm := @try_find_claim_field_firstFit true (fun _ => 18#64) 2 3 65
    (by decide) (by decide) (by decide)
  obtain ⟨found, bitmap', heq, ⟨rfl, -, hnone⟩ | ⟨p, rfl, hfirst, -⟩⟩ :=
    hthm.1
  · refine absurd ?_ (hnone 5 (by decide))
    intro b hlo hhi
    obtain rfl | rfl | rfl : b = 133 ∨ b = 134 ∨ b = 135 := by omega
    · rfl
    · rfl
    · rfl
  · exact ⟨p, bitmap', heq, hfirst⟩

end Palloc
