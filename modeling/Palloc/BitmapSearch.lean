import Palloc.Bitmap

/-!
# Searching a bitmap

Inside a field the scan skips a position only over a bit that is set, so it
finds a run if the field has one.  Across fields the search considers the run
that starts at the lowest of the clear bits on top of a field.  Alone at work,
it claims what it has found.
-/

namespace Palloc

open BitFields

variable {map : BitVec 64} {bitmap bitmap' : Fields}
variable {idx count bitidx p b : ℕ}

/-! ## Inside one field -/

theorem ones_shiftLeft (hfit : bitidx + count ≤ 64) :
    ones count 0 <<< bitidx = ones count bitidx := by
  unfold ones
  split
  · have hzero : bitidx = 0 := by omega
    rw [hzero, BitVec.shiftLeft_zero]
  · split
    · exact BitVec.zero_shiftLeft bitidx
    · rw [BitVec.shiftLeft_zero]

/-- A bit of the field that is set keeps every range around it from being
clear. -/
theorem and_ones_ne_zero {j : ℕ} (hfit : p + count ≤ 64)
    (hbit : map.getLsbD j = true) (hle : p ≤ j) (hlt : j < p + count) :
    map &&& ones count p ≠ 0 := by
  intro hzero
  have hj : (map &&& ones count p).getLsbD j = true := by
    rw [BitVec.getLsbD_and, hbit, getLsbD_ones hfit (by omega),
      decide_eq_true ⟨hle, hlt⟩]
    rfl
  rw [hzero] at hj
  simp at hj

theorem top_of_and_ones (hfit : bitidx + count ≤ 64)
    (hne : map &&& ones count bitidx ≠ 0) :
    let top := 63 - (map &&& ones count bitidx).clz.toNat
    map.getLsbD top = true ∧ bitidx ≤ top ∧ top < bitidx + count ∧
      (map &&& ones count bitidx).clz.toNat < 64 := by
  intro top
  have hlt : (map &&& ones count bitidx).clz < 64#64 :=
    BitVec.clz_lt_iff_ne_zero.mpr hne
  have hclz : (map &&& ones count bitidx).clz.toNat < 64 := hlt
  have htop := BitVec.getLsbD_true_clz_of_ne_zero (by decide) hne
  have hj : top < 64 := by omega
  rw [BitVec.getLsbD_and, Bool.and_eq_true] at htop
  have hin := htop.2
  rw [getLsbD_ones hfit hj, decide_eq_true_eq] at hin
  exact ⟨htop.1, hin.1, hin.2, hclz⟩

theorem below_ctz {p : ℕ} (hpos : 0 < count) (hpfit : p + count ≤ 64)
    (hlow : p < (~~~map).ctz.toNat) : map &&& ones count p ≠ 0 := by
  have hnot : (~~~map).getLsbD p = false :=
    BitVec.getLsbD_false_of_lt_ctz hlow
  have hp : p < 64 := by omega
  have hbit : map.getLsbD p = true := by
    simpa [hp] using hnot
  exact and_ones_ne_zero hpfit hbit le_rfl (by omega)

/-- The scan moves up, by at most the length of the run, and over no position
where a run fits. -/
theorem scanShift_spec (fastBitscan : Bool) (hpos : 0 < count)
    (hfit : bitidx + count ≤ 64) (hne : map &&& ones count bitidx ≠ 0) :
    let shift :=
      scanShift fastBitscan count (map &&& ones count bitidx) bitidx
    0 < shift ∧ shift ≤ count ∧
      ∀ p, bitidx ≤ p → p < bitidx + shift → p + count ≤ 64 →
        map &&& ones count p ≠ 0 := by
  intro shift
  cases fastBitscan with
  | false =>
      have hshift : shift = 1 := rfl
      refine ⟨by omega, by omega, ?_⟩
      intro p hle hlt _
      obtain rfl : p = bitidx := by omega
      exact hne
  | true =>
      obtain ⟨hbit, hle, hlt, hclz⟩ := top_of_and_ones hfit hne
      have hshift : bitidx + shift =
          63 - (map &&& ones count bitidx).clz.toNat + 1 := by
        have heq : shift = if count = 1 then 1 else
            64 - (map &&& ones count bitidx).clz.toNat - bitidx := rfl
        rw [heq]
        split <;> omega
      refine ⟨by omega, by omega, ?_⟩
      intro p hp hp' hpfit
      -- the highest bit in the way is in every range that is skipped
      exact and_ones_ne_zero hpfit hbit (by omega) (by omega)

theorem scanLoop_spec (fastBitscan : Bool) {fuel : ℕ} (hpos : 0 < count)
    (hcount : count < 64) (hidx : bitidx ≤ 64)
    (hfuel : 64 < fuel + bitidx) :
    ∃ found, scanLoop fastBitscan map count fuel map bitidx
        (ones count 0 <<< bitidx) = some found ∧
      match found with
      | none => ∀ p, bitidx ≤ p → p + count ≤ 64 → map &&& ones count p ≠ 0
      | some (p, newmap) =>
          p + count ≤ 64 ∧ map &&& ones count p = 0 ∧
          newmap = map ||| ones count p ∧
          ∀ q, bitidx ≤ q → q < p → map &&& ones count q ≠ 0 := by
  induction fuel generalizing bitidx with
  | zero => omega
  | succ fuel ih =>
      unfold scanLoop
      by_cases hmax : bitidx ≤ 64 - count
      · have hfit : bitidx + count ≤ 64 := by omega
        rw [if_pos hmax, ones_shiftLeft hfit]
        dsimp only
        by_cases hfree : map &&& ones count bitidx = 0
        · rw [if_pos hfree, if_pos rfl]
          exact ⟨_, rfl, hfit, hfree, rfl, fun q hq hq' => by omega⟩
        · obtain ⟨hup, hle, hskip⟩ :=
            scanShift_spec fastBitscan hpos hfit hfree
          rw [if_neg hfree]
          generalize scanShift fastBitscan count
            (map &&& ones count bitidx) bitidx = shift at hup hle hskip ⊢
          have hmask : ones count bitidx <<< shift =
              ones count 0 <<< (bitidx + shift) := by
            rw [← ones_shiftLeft hfit, BitVec.shiftLeft_add]
          rw [if_pos (by omega), hmask]
          obtain ⟨found, heq, hfound⟩ :=
            @ih (bitidx + shift) (by omega) (by omega)
          refine ⟨found, heq, ?_⟩
          cases found with
          | none =>
              intro p hp hpfit
              by_cases hover : p < bitidx + shift
              · exact hskip p hp hover hpfit
              · exact hfound p (not_lt.mp hover) hpfit
          | some found =>
              obtain ⟨hpfit, hzero, hnew, hlowest⟩ := hfound
              refine ⟨hpfit, hzero, hnew, ?_⟩
              intro q hq hq'
              by_cases hover : q < bitidx + shift
              · exact hskip q hq hover (by omega)
              · exact hlowest q (not_lt.mp hover) hq'
      · rw [if_neg hmax]
        exact ⟨none, rfl, fun p hp hpfit => by omega⟩

/-- A run as long as the field has one place, and the loop either finds it
there or stops. -/
theorem scanLoop_whole {fuel : ℕ} (hfuel : 1 < fuel) :
    (scanLoop true map 64 fuel map 0 (ones 64 0)).getD none =
      if map &&& ones 64 0 = 0 then some (0, map ||| ones 64 0) else none := by
  obtain ⟨fuel, rfl⟩ : ∃ left, fuel = left + 2 := ⟨fuel - 2, by omega⟩
  unfold scanLoop
  rw [if_pos (Nat.zero_le _)]
  by_cases hfree : map &&& ones 64 0 = 0
  · dsimp only
    rw [if_pos hfree, if_pos hfree, if_pos rfl, Option.getD_some]
  · obtain ⟨hup, -⟩ := scanShift_spec true (by decide) (by decide) hfree
    dsimp only
    rw [if_neg hfree, if_neg hfree]
    split
    · unfold scanLoop
      rw [if_neg (by omega), Option.getD_some]
    · rfl

/-- The loop misses no run, and what it would write sets the bits that it has
found. -/
theorem scanLoop_found {fuel : ℕ} (hpos : 0 < count) (hcount : count ≤ 64)
    (hfuel : 64 < fuel) :
    match (scanLoop true map count fuel map bitidx
      (ones count 0 <<< bitidx)).getD none with
    | none => ∀ p, bitidx ≤ p → p + count ≤ 64 → map &&& ones count p ≠ 0
    | some (p, newmap) =>
        p + count ≤ 64 ∧ map &&& ones count p = 0 ∧
          newmap = map ||| ones count p := by
  by_cases hmax : bitidx ≤ 64 - count
  · by_cases hlt : count < 64
    · obtain ⟨found, heq, hfound⟩ := @scanLoop_spec map count bitidx true fuel
        hpos hlt (by omega) (by omega)
      rw [heq, Option.getD_some]
      cases found with
      | none => exact hfound
      | some found => exact ⟨hfound.1, hfound.2.1, hfound.2.2.1⟩
    · obtain rfl : count = 64 := by omega
      obtain rfl : bitidx = 0 := by omega
      rw [BitVec.shiftLeft_zero, scanLoop_whole (by omega)]
      by_cases hfree : map &&& ones 64 0 = 0
      · rw [if_pos hfree]
        exact ⟨le_rfl, hfree, rfl⟩
      · rw [if_neg hfree]
        intro p _ hfit
        obtain rfl : p = 0 := by omega
        exact hfree
  · obtain ⟨fuel, rfl⟩ : ∃ left, fuel = left + 1 := ⟨fuel - 1, by omega⟩
    unfold scanLoop
    rw [if_neg hmax]
    intro p hle hfit
    omega

theorem scanField_spec (hpos : 0 < count) (hcount : count ≤ 64) :
    match scanField map count bitidx with
    | none => ∀ p, bitidx ≤ p → p + count ≤ 64 → map &&& ones count p ≠ 0
    | some p => p + count ≤ 64 ∧ map &&& ones count p = 0 := by
  have hfound := @scanLoop_found map count bitidx 65 hpos hcount (by decide)
  unfold scanField
  cases hscan : (scanLoop true map count 65 map bitidx
      (ones count 0 <<< bitidx)).getD none with
  | none =>
      rw [hscan] at hfound
      exact hfound
  | some found =>
      rw [hscan] at hfound
      exact ⟨hfound.1, hfound.2.1⟩

theorem findInField_spec (hpos : 0 < count) (hcount : count ≤ 64) :
    match findInField map count with
    | none => ∀ p, p + count ≤ 64 → map &&& ones count p ≠ 0
    | some p => p + count ≤ 64 ∧ map &&& ones count p = 0 := by
  unfold findInField
  by_cases hfull : map = BitVec.allOnes 64
  · rw [if_pos hfull]
    intro p hfit
    have hbit : map.getLsbD p = true := by
      rw [hfull, BitVec.getLsbD_allOnes]
      exact decide_eq_true (by omega)
    exact and_ones_ne_zero hfit hbit le_rfl (by omega)
  · rw [if_neg hfull]
    have hspec := @scanField_spec map count (~~~map).ctz.toNat hpos hcount
    cases hscan : scanField map count (~~~map).ctz.toNat with
    | some p =>
        rw [hscan] at hspec
        exact hspec
    | none =>
        rw [hscan] at hspec
        intro p hfit
        by_cases hlow : (~~~map).ctz.toNat ≤ p
        · exact hspec p hlow hfit
        · exact below_ctz hpos hfit (not_le.mp hlow)

theorem tryFindClaimField_eq (bitmap : Fields) (idx : ℕ) (hpos : 0 < count)
    (hcount : count ≤ 64) :
    tryFindClaimField bitmap idx count =
      match findInField (bitmap idx) count with
      | none => (none, bitmap)
      | some p =>
          (some (64 * idx + p),
            Function.update bitmap idx (bitmap idx ||| ones count p)) := by
  unfold tryFindClaimField tryFindClaimFieldLoop findInField scanField
  by_cases hfull : bitmap idx = BitVec.allOnes 64
  · simp [hfull]
  · have hfound := @scanLoop_found (bitmap idx) count
      (~~~bitmap idx).ctz.toNat 65 hpos hcount (by decide)
    simp only [hfull, if_false, if_true]
    cases hscan : scanLoop true (bitmap idx) count 65 (bitmap idx)
        (~~~bitmap idx).ctz.toNat
        (ones count 0 <<< (~~~bitmap idx).ctz.toNat) with
    | none => rfl
    | some found =>
        cases found with
        | none => rfl
        | some found =>
            rw [hscan] at hfound
            obtain ⟨-, -, hnew⟩ := hfound
            simp [hnew]

/-- `_pa_bitmap_try_find_claim_field` claims a run of the field if it has
one. -/
theorem tryFindClaimField_spec (bitmap : Fields) (idx : ℕ) (hpos : 0 < count)
    (hcount : count ≤ 64) :
    (tryFindClaimField bitmap idx count = (none, bitmap) ∧
      ∀ p, p + count ≤ 64 →
        ¬ Clear bitmap (64 * idx + p) (64 * idx + p + count)) ∨
    ∃ p bitmap',
      tryFindClaimField bitmap idx count = (some (64 * idx + p), bitmap') ∧
      p + count ≤ 64 ∧
      Clear bitmap (64 * idx + p) (64 * idx + p + count) ∧
      Sets bitmap bitmap' (64 * idx + p) (64 * idx + p + count) := by
  have hspec := @findInField_spec (bitmap idx) count hpos hcount
  rw [tryFindClaimField_eq bitmap idx hpos hcount]
  cases hfind : findInField (bitmap idx) count with
  | none =>
      rw [hfind] at hspec
      refine Or.inl ⟨rfl, ?_⟩
      intro p hfit hclear
      exact hspec p hfit ((and_ones_eq_zero_iff hfit).mpr hclear)
  | some p =>
      rw [hfind] at hspec
      rcases hspec with ⟨hfit, hfree⟩
      exact Or.inr ⟨p, _, rfl, hfit, (and_ones_eq_zero_iff hfit).mp hfree,
        sets_or hfit⟩

/-! ## Across fields -/

theorem scanAhead_spec {fuel field found : ℕ} (hfound : found < count)
    (hfuel : count ≤ fuel + found) :
    match scanAhead bitmap count fuel field found with
    | none =>
        ¬ Clear bitmap (64 * field) (64 * field + (count - found))
    | some (finalField, finalBits) =>
        Clear bitmap (64 * field) (64 * field + (count - found)) ∧
        field ≤ finalField ∧ 0 < finalBits ∧ finalBits ≤ 64 ∧
        64 * finalField + finalBits = 64 * field + (count - found) := by
  induction fuel generalizing field found with
  | zero => omega
  | succ fuel ih =>
      unfold scanAhead
      dsimp only
      generalize hbits :
        (if found + 64 ≤ count then 64 else count - found) = maskBits
      have hmask : 0 < maskBits ∧ maskBits ≤ 64 ∧
          found + maskBits ≤ count ∧
          (found + maskBits < count → maskBits = 64) := by
        rw [← hbits]
        split <;> omega
      have hfield := @and_ones_eq_zero_iff bitmap field maskBits 0 (by omega)
      rw [Nat.add_zero] at hfield
      by_cases hclaimed : bitmap field &&& ones maskBits 0 ≠ 0
      · rw [if_pos hclaimed]
        intro hclear
        exact hclaimed (hfield.mpr (hclear.mono le_rfl (by omega)))
      · rw [if_neg hclaimed]
        have hclear := hfield.mp (not_not.mp hclaimed)
        by_cases hmore : found + maskBits < count
        · rw [if_pos hmore]
          have hfull := hmask.2.2.2 hmore
          have hend : 64 * field + maskBits = 64 * (field + 1) := by omega
          have hlen : 64 * (field + 1) + (count - (found + maskBits)) =
              64 * field + (count - found) := by omega
          have hrest := @ih (field + 1) (found + maskBits) hmore (by omega)
          rw [hend] at hclear
          rw [hlen] at hrest
          cases hscan : scanAhead bitmap count fuel (field + 1)
              (found + maskBits) with
          | none =>
              rw [hscan] at hrest
              intro hall
              exact hrest (hall.mono (by omega) le_rfl)
          | some final =>
              rw [hscan] at hrest
              rcases hrest with ⟨htail, hle, hfinal⟩
              exact ⟨hclear.append htail, by omega, hfinal⟩
        · rw [if_neg hmore]
          have hall : maskBits = count - found := by omega
          rw [hall] at hclear ⊢
          exact ⟨hclear, le_rfl, by omega, by omega, rfl⟩

/-- Clear fields between can all be claimed. -/
theorem claimMid_spec {finalField fuel field : ℕ}
    (hfuel : finalField - field ≤ fuel) (hle : field ≤ finalField)
    (hclear : Clear bitmap (64 * field) (64 * finalField)) :
    ∃ bitmap', claimMid finalField fuel field bitmap =
        (true, finalField, bitmap') ∧
      Sets bitmap bitmap' (64 * field) (64 * finalField) := by
  induction fuel generalizing field bitmap with
  | zero =>
      obtain rfl : field = finalField := by omega
      exact ⟨bitmap, rfl, sets_empty _ _⟩
  | succ fuel ih =>
      unfold claimMid
      by_cases hlt : field < finalField
      · have hones : ones 64 0 = BitVec.allOnes 64 := rfl
        have hfield := @and_ones_eq_zero_iff bitmap field 64 0 le_rfl
        have hsets := @sets_or bitmap field 64 0 le_rfl
        rw [hones, Nat.add_zero] at hfield hsets
        rw [BitVec.and_allOnes] at hfield
        rw [BitVec.or_allOnes] at hsets
        have hzero := hfield.mpr (hclear.mono le_rfl (by omega))
        rw [if_pos hlt, if_pos hzero]
        have hend : 64 * field + 64 = 64 * (field + 1) := by omega
        rw [hend] at hsets
        have hrest : Clear (Function.update bitmap field (BitVec.allOnes 64))
            (64 * (field + 1)) (64 * finalField) := by
          rw [clear_congr fun b hb hb' => hsets.outside (Or.inr hb)]
          exact hclear.mono (by omega) le_rfl
        rcases ih (by omega) hlt hrest with ⟨bitmap', heq, htail⟩
        exact ⟨bitmap', heq, hsets.append htail (by omega) (by omega)⟩
      · obtain rfl : field = finalField := by omega
        rw [if_neg hlt]
        exact ⟨bitmap, rfl, sets_empty _ _⟩

/-- A run that was found can be claimed. -/
theorem claimFields_spec {initial finalField finalBits : ℕ}
    (hinitial : 0 < initial) (hinitialLe : initial ≤ 64)
    (hlt : idx < finalField) (hbits : finalBits ≤ 64)
    (hclear : Clear bitmap (64 * idx + (64 - initial))
      (64 * finalField + finalBits)) :
    ∃ bitmap', claimFields bitmap idx initial finalField finalBits =
        (true, bitmap') ∧
      Sets bitmap bitmap' (64 * idx + (64 - initial))
        (64 * finalField + finalBits) := by
  have hfit : 64 - initial + initial ≤ 64 := by omega
  have hend : 64 * idx + (64 - initial) + initial = 64 * (idx + 1) := by omega
  have hfirst := @and_ones_eq_zero_iff bitmap idx _ _ hfit
  have hsets := @sets_or bitmap idx _ _ hfit
  rw [hend] at hfirst hsets
  have hfree := hfirst.mpr (hclear.mono le_rfl (by omega))
  unfold claimFields
  dsimp only
  rw [if_neg (not_not.mpr hfree)]
  generalize hafter : Function.update bitmap idx
    (bitmap idx ||| ones initial (64 - initial)) = bitmap₁ at hsets ⊢
  have hrest : Clear bitmap₁ (64 * (idx + 1))
      (64 * finalField + finalBits) := by
    rw [clear_congr fun b hb hb' => hsets.outside (Or.inr hb)]
    exact hclear.mono (by omega) le_rfl
  rcases @claimMid_spec bitmap₁ finalField (finalField - idx) (idx + 1)
    (by omega) hlt (hrest.mono le_rfl (by omega)) with ⟨bitmap₂, hmid, hmidSets⟩
  rw [hmid]
  dsimp only
  have hlast := @and_ones_eq_zero_iff bitmap₂ finalField finalBits 0
    (by omega)
  have hlastSets := @sets_or bitmap₂ finalField finalBits 0
    (by omega)
  rw [Nat.add_zero] at hlast hlastSets
  have hlastFree : bitmap₂ finalField &&& ones finalBits 0 = 0 := by
    rw [hlast, clear_congr fun b hb hb' => hmidSets.outside (Or.inr hb)]
    exact hrest.mono (by omega) le_rfl
  rw [if_neg (not_not.mpr hlastFree)]
  exact ⟨_, rfl, (hsets.append hmidSets (by omega) (by omega)).append hlastSets
    (by omega) (by omega)⟩

/-- Where the run starts that the search considers in a field. -/
def runStart (bitmap : Fields) (idx : ℕ) : ℕ :=
  64 * idx + (64 - (bitmap idx).clz.toNat)

structure Claimed (bitmapFields count b : ℕ) (bitmap bitmap' : Fields) :
    Prop where
  clear : Clear bitmap b (b + count)
  sets : Sets bitmap bitmap' b (b + count)
  inside : b + count ≤ 64 * bitmapFields

/-- `pa_bitmap_try_find_claim_field_across` claims the run that it considers
if that run is clear and fits. -/
theorem tryFindClaimFieldAcross_spec {bitmapFields : ℕ} (retries : ℕ)
    (bitmap : Fields) (hpos : 0 < count) (hidx : idx < bitmapFields) :
    (tryFindClaimFieldAcross bitmapFields idx count retries bitmap =
        (none, bitmap) ∧
      ((bitmap idx).clz.toNat = 0 ∨
        64 * bitmapFields < runStart bitmap idx + count ∨
        ¬ Clear bitmap (runStart bitmap idx)
          (runStart bitmap idx + count))) ∨
    ∃ b bitmap', tryFindClaimFieldAcross bitmapFields idx count retries
        bitmap = (some b, bitmap') ∧
      Claimed bitmapFields count b bitmap bitmap' := by
  have hclz := @clz_le_field bitmap idx
  have htop := @clear_clz bitmap idx
  unfold tryFindClaimFieldAcross runStart
  dsimp only
  generalize (bitmap idx).clz.toNat = initial at *
  by_cases hzero : initial = 0
  · rw [if_pos hzero]
    exact Or.inl ⟨rfl, Or.inl hzero⟩
  rw [if_neg hzero]
  have hstart : 64 * idx + 64 - initial = 64 * idx + (64 - initial) := by
    omega
  rw [hstart] at htop
  by_cases hfits : count ≤ initial
  · -- the field alone has room
    rw [if_pos hfits]
    rcases tryFindClaimField_spec bitmap idx hpos (hfits.trans hclz) with
      ⟨-, hnone⟩ | ⟨p, bitmap', heq, hfit, hclear, hsets⟩
    · exact absurd (htop.mono le_rfl (by omega))
        (hnone (64 - initial) (by omega))
    · exact Or.inr ⟨_, bitmap', heq, hclear, hsets, by omega⟩
  rw [if_neg hfits]
  have hup : 64 * (divideUp (count - initial) 64 - 1) < count - initial ∧
      count - initial ≤ 64 * divideUp (count - initial) 64 := by
    unfold divideUp
    omega
  by_cases hroom : bitmapFields - idx ≤ divideUp (count - initial) 64
  · rw [if_pos hroom]
    exact Or.inl ⟨rfl, Or.inr (Or.inl (by omega))⟩
  rw [if_neg hroom]
  have hscan := @scanAhead_spec bitmap count count (idx + 1) initial
    (not_le.mp hfits) (by omega)
  have hend : 64 * (idx + 1) + (count - initial) =
      64 * idx + (64 - initial) + count := by omega
  rw [hend] at hscan
  cases hahead : scanAhead bitmap count count (idx + 1) initial with
  | none =>
      rw [hahead] at hscan
      refine Or.inl ⟨rfl, Or.inr (Or.inr ?_)⟩
      intro hclear
      exact hscan (hclear.mono (by omega) le_rfl)
  | some final =>
      rcases final with ⟨finalField, finalBits⟩
      rw [hahead] at hscan
      rcases hscan with ⟨hclear, hle, hbits, hbitsLe, hfinal⟩
      have hjoin : 64 * idx + 64 = 64 * (idx + 1) := by omega
      rw [hjoin] at htop
      have hall := htop.append hclear
      rcases @claimFields_spec bitmap idx initial finalField finalBits
        (by omega) hclz (by omega) hbitsLe (by rw [hfinal]; exact hall) with
        ⟨bitmap', heq, hsets⟩
      rw [hfinal] at hsets
      dsimp only
      rw [heq]
      exact Or.inr ⟨_, bitmap', rfl, hall, hsets, by omega⟩

/-! ## Visiting the fields -/

def visitOrder (bitmapFields : ℕ) : (left idx : ℕ) → List ℕ
  | 0, _ => []
  | left + 1, idx =>
      let idx := if bitmapFields ≤ idx then 0 else idx
      idx :: visitOrder bitmapFields left (idx + 1)

theorem lt_of_mem_visitOrder {bitmapFields left i : ℕ}
    (hpos : 0 < bitmapFields) (hmem : i ∈ visitOrder bitmapFields left idx) :
    i < bitmapFields := by
  induction left generalizing idx with
  | zero => cases hmem
  | succ left ih =>
      rcases List.mem_cons.mp hmem with rfl | hrest
      · split <;> omega
      · exact ih hrest

theorem mem_visitOrder {bitmapFields left i : ℕ} (hi : i < bitmapFields)
    (hidx : idx ≤ bitmapFields)
    (hreach : idx ≤ i ∧ i < idx + left ∨ i + bitmapFields < idx + left) :
    i ∈ visitOrder bitmapFields left idx := by
  induction left generalizing idx with
  | zero => omega
  | succ left ih =>
      unfold visitOrder
      dsimp only
      rw [List.mem_cons]
      by_cases hwrap : bitmapFields ≤ idx
      · rw [if_pos hwrap]
        by_cases hzero : i = 0
        · exact Or.inl hzero
        · exact Or.inr (ih (by omega) (by omega))
      · rw [if_neg hwrap]
        by_cases heq : i = idx
        · exact Or.inl heq
        · exact Or.inr (ih (by omega) (by omega))

theorem mem_visitOrder_all {bitmapFields i : ℕ} (start : ℕ)
    (hi : i < bitmapFields) :
    i ∈ visitOrder bitmapFields bitmapFields start := by
  by_cases hstart : start ≤ bitmapFields
  · exact mem_visitOrder hi hstart (by omega)
  · -- a start behind the end is taken as the first field
    have hzero : visitOrder bitmapFields bitmapFields start =
        visitOrder bitmapFields bitmapFields 0 := by
      cases bitmapFields with
      | zero => rfl
      | succ fields =>
          unfold visitOrder
          dsimp only
          rw [if_pos (by omega), if_neg (by omega)]
    rw [hzero]
    exact mem_visitOrder hi (Nat.zero_le _) (by omega)

/-- The visit stops at the first field where something was claimed. -/
theorem visitFields_spec (tryField : ℕ → Fields → Option ℕ × Fields)
    {bitmapFields left : ℕ}
    (hsame : ∀ i ∈ visitOrder bitmapFields left idx,
      (tryField i bitmap).1 = none → tryField i bitmap = (none, bitmap)) :
    (visitFields tryField bitmapFields left idx bitmap = (none, bitmap) ∧
      ∀ i ∈ visitOrder bitmapFields left idx,
        tryField i bitmap = (none, bitmap)) ∨
    ∃ i ∈ visitOrder bitmapFields left idx, ∃ b bitmap',
      tryField i bitmap = (some b, bitmap') ∧
      visitFields tryField bitmapFields left idx bitmap =
        (some b, bitmap') := by
  induction left generalizing idx with
  | zero => exact Or.inl ⟨rfl, by simp [visitOrder]⟩
  | succ left ih =>
      unfold visitFields visitOrder
      unfold visitOrder at hsame
      dsimp only at hsame ⊢
      generalize (if bitmapFields ≤ idx then 0 else idx) = i at hsame ⊢
      cases hfound : tryField i bitmap with
      | mk found bitmap' =>
          cases found with
          | some b =>
              exact Or.inr ⟨i, List.mem_cons_self, b, bitmap', hfound, rfl⟩
          | none =>
              have hkeep := hsame i List.mem_cons_self (by rw [hfound])
              rw [hfound] at hkeep
              obtain rfl : bitmap' = bitmap := congrArg Prod.snd hkeep
              rcases @ih (i + 1) (fun j hj =>
                hsame j (List.mem_cons_of_mem i hj)) with
                ⟨hnone, hall⟩ | ⟨j, hj, hsome⟩
              · refine Or.inl ⟨hnone, ?_⟩
                intro j hj
                rcases List.mem_cons.mp hj with rfl | hj
                · exact hfound
                · exact hall j hj
              · exact Or.inr ⟨j, List.mem_cons_of_mem _ hj, hsome⟩

/-- The runs that the search is made for: inside a field for one or two bits,
else from the lowest of the clear bits on top of a field on. -/
def SearchedRun (bitmap : Fields) (bitmapFields count : ℕ) : Prop :=
  if count ≤ 2 then
    ∃ i < bitmapFields, ∃ p, p + count ≤ 64 ∧
      Clear bitmap (64 * i + p) (64 * i + p + count)
  else
    ∃ i < bitmapFields, (bitmap i).clz.toNat ≠ 0 ∧
      runStart bitmap i + count ≤ 64 * bitmapFields ∧
      Clear bitmap (runStart bitmap i) (runStart bitmap i + count)

/-- The search claims a clear run, and fails only if there is none of those it
is made for. -/
theorem tryFindFromClaimAcross_spec (bitmap : Fields)
    (bitmapFields startFieldIdx : ℕ) (hpos : 0 < count) :
    (tryFindFromClaimAcross bitmap bitmapFields startFieldIdx count =
        (none, bitmap) ∧ ¬ SearchedRun bitmap bitmapFields count) ∨
    ∃ b bitmap', tryFindFromClaimAcross bitmap bitmapFields startFieldIdx
        count = (some b, bitmap') ∧
      Claimed bitmapFields count b bitmap bitmap' := by
  have hlt : ∀ {i}, i ∈ visitOrder bitmapFields bitmapFields startFieldIdx →
      i < bitmapFields := by
    intro i hi
    cases bitmapFields with
    | zero => cases hi
    | succ fields => exact lt_of_mem_visitOrder (Nat.succ_pos fields) hi
  unfold tryFindFromClaimAcross SearchedRun
  by_cases hsmall : count ≤ 2
  · rw [if_pos hsmall, if_pos hsmall]
    unfold tryFindFromClaim
    have hfield := fun i =>
      tryFindClaimField_spec bitmap i hpos (by omega : count ≤ 64)
    have hsame : ∀ i ∈ visitOrder bitmapFields bitmapFields startFieldIdx,
        (tryFindClaimField bitmap i count).1 = none →
          tryFindClaimField bitmap i count = (none, bitmap) := by
      intro i hi hnone
      rcases hfield i with ⟨hno, -⟩ | ⟨p, bitmap₁, hsome, -⟩
      · exact hno
      · rw [hsome] at hnone
        cases hnone
    rcases visitFields_spec
      (fun idx bitmap => tryFindClaimField bitmap idx count) hsame with
      ⟨hnone, hall⟩ | ⟨i, hi, b, bitmap', htry, heq⟩
    · refine Or.inl ⟨hnone, ?_⟩
      rintro ⟨i, hi, p, hfit, hclear⟩
      rcases hfield i with ⟨-, hno⟩ | ⟨q, bitmap', heq, -⟩
      · exact hno p hfit hclear
      · rw [hall i (mem_visitOrder_all startFieldIdx hi)] at heq
        cases heq
    · refine Or.inr ⟨b, bitmap', heq, ?_⟩
      have hbound := hlt hi
      rcases hfield i with ⟨hno, -⟩ | ⟨p, bitmap₁, hsome, hfit, hclear, hsets⟩
      · rw [hno] at htry
        cases htry
      · rw [hsome] at htry
        cases htry
        exact ⟨hclear, hsets, by omega⟩
  · rw [if_neg hsmall, if_neg hsmall]
    have hfield := fun i (hi : i < bitmapFields) =>
      tryFindClaimFieldAcross_spec 3 bitmap hpos hi
    have hsame : ∀ i ∈ visitOrder bitmapFields bitmapFields startFieldIdx,
        (tryFindClaimFieldAcross bitmapFields i count 3 bitmap).1 = none →
          tryFindClaimFieldAcross bitmapFields i count 3 bitmap =
            (none, bitmap) := by
      intro i hi hnone
      rcases hfield i (hlt hi) with ⟨hno, -⟩ | ⟨b, bitmap₁, hsome, -⟩
      · exact hno
      · rw [hsome] at hnone
        cases hnone
    rcases visitFields_spec
      (fun idx => tryFindClaimFieldAcross bitmapFields idx count 3) hsame with
      ⟨hnone, hall⟩ | ⟨i, hi, b, bitmap', htry, heq⟩
    · refine Or.inl ⟨hnone, ?_⟩
      rintro ⟨i, hi, hclz, hfit, hclear⟩
      rcases hfield i hi with ⟨-, hno⟩ | ⟨b, bitmap', heq, -⟩
      · rcases hno with hzero | hlong | hbusy
        · exact hclz hzero
        · omega
        · exact hbusy hclear
      · rw [hall i (mem_visitOrder_all startFieldIdx hi)] at heq
        cases heq
    · refine Or.inr ⟨b, bitmap', heq, ?_⟩
      rcases hfield i (hlt hi) with ⟨hno, -⟩ | ⟨b₁, bitmap₁, hsome, hclaimed⟩
      · rw [hno] at htry
        cases htry
      · rw [hsome] at htry
        cases htry
        exact hclaimed

end Palloc
