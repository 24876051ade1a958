import Palloc.BitmapAcross
import Mathlib.Data.List.Range

/-!
# The bits of a given range

`_pa_bitmap_claim_across` and its siblings split a range into a mask for the
first field, one for the full fields and one for the last field.  This file
has their walks over these masks, and reads what they do and return off the
list of the bits of the range.
-/

namespace Palloc

open BitFields

/-! ## The walk is one over the masks of the range -/

variable {σ : Type} {step : ℕ → BitVec 64 → σ → σ}
variable {masks : List (ℕ × BitVec 64)}
variable {bitmap bitmap' : Fields} {count bitmapIdx lo mid hi start field : ℕ}

theorem walkMid_eq (midMask : BitVec 64) (midCount field : ℕ) (s : σ) :
    walkMid step midMask midCount field s =
      ((List.range midCount).map fun i => (field + i, midMask)).foldl
        (fun s mask => step mask.1 mask.2 s) s := by
  induction midCount generalizing field s with
  | zero => rfl
  | succ midCount ih =>
      have hshift : (fun i => (field + 1 + i, midMask)) =
          (fun i => (field + i, midMask)) ∘ Nat.succ := by
        funext i
        dsimp only [Function.comp]
        rw [Nat.add_assoc, Nat.add_comm 1 i]
      rw [List.range_succ_eq_map, List.map_cons, List.foldl_cons,
        List.map_map, ← hshift, ← ih]
      rfl

theorem ones_ne_zero {postBits : ℕ} (hpos : 0 < postBits)
    (hlt : postBits < 64) : ones postBits 0 ≠ 0 := by
  intro hzero
  have hbit := @getLsbD_ones postBits 0 0 (by omega) (by decide)
  rw [hzero, decide_eq_true ⟨le_rfl, by omega⟩] at hbit
  cases hbit

theorem walkAcross_eq (s : σ) :
    walkAcross step bitmapIdx count s =
      (acrossMasks count bitmapIdx).foldl
        (fun s mask => step mask.1 mask.2 s) s := by
  unfold walkAcross bitmapMaskAcross acrossMasks
  dsimp only
  by_cases hfit : bitmapIdx % 64 + count ≤ 64
  · rw [if_pos hfit, if_pos hfit]
    rfl
  · rw [if_neg hfit, if_neg hfit]
    dsimp only
    rw [walkMid_eq, List.cons_append, List.foldl_cons, List.foldl_append]
    by_cases hpost : (count - (64 - bitmapIdx % 64)) % 64 = 0
    · rw [if_pos hpost, if_pos hpost]
      rfl
    · have hne := ones_ne_zero (Nat.pos_of_ne_zero hpost)
        (Nat.mod_lt _ (by decide))
      rw [if_neg hpost, if_neg hpost, if_pos hne]
      rfl

/-- What every mask of a run keeps, from the bits before it to those up to its
end, the walk has at the end of the run. -/
theorem MaskRun.foldl {P : ℕ → σ → Prop} (hrun : MaskRun masks lo hi)
    (hstep : ∀ field count start s, start + count ≤ 64 →
      P (64 * field + start) s →
      P (64 * field + start + count) (step field (ones count start) s))
    {s : σ} (hs : P lo s) :
    P hi (masks.foldl (fun s mask => step mask.1 mask.2 s) s) := by
  induction hrun generalizing s with
  | nil lo => exact hs
  | cons hfit hrest ih => exact ih (hstep _ _ _ s hfit hs)

theorem walkAcross_spec {P : ℕ → σ → Prop} {s : σ} (hs : P bitmapIdx s)
    (hstep : ∀ field count start s, start + count ≤ 64 →
      P (64 * field + start) s →
      P (64 * field + start + count) (step field (ones count start) s)) :
    P (bitmapIdx + count) (walkAcross step bitmapIdx count s) := by
  rw [walkAcross_eq]
  exact acrossMasks_run.foldl hstep hs

/-! ## Counting bits -/

def countSet (bitmap : Fields) (lo hi : ℕ) : ℕ :=
  (List.range' lo (hi - lo)).countP (bit bitmap)

theorem countSet_empty (bitmap : Fields) (lo : ℕ) :
    countSet bitmap lo lo = 0 := by
  unfold countSet
  rw [Nat.sub_self]
  rfl

theorem countSet_append (hlo : lo ≤ mid) (hhi : mid ≤ hi) :
    countSet bitmap lo hi = countSet bitmap lo mid + countSet bitmap mid hi := by
  unfold countSet
  have hmid : lo + (mid - lo) = mid := by omega
  have hlen : hi - lo = mid - lo + (hi - mid) := by omega
  rw [hlen, ← List.range'_append_1, List.countP_append, hmid]

theorem countSet_congr
    (heq : ∀ b, lo ≤ b → b < hi → bit bitmap' b = bit bitmap b) :
    countSet bitmap' lo hi = countSet bitmap lo hi := by
  unfold countSet
  apply List.countP_congr
  intro b hb
  rw [List.mem_range'_1] at hb
  rw [heq b hb.1 (by omega)]

theorem popcount_eq_cpop (x : BitVec 64) : popcount x = x.cpop.toNat := by
  unfold popcount
  by_cases hsmall : x ≤ 1
  · rw [if_pos hsmall]
    have hval : x.toNat ≤ 1 := hsmall
    obtain hzero | hone : x = 0 ∨ x = 1 := by
      rcases Nat.le_one_iff_eq_zero_or_eq_one.mp hval with hzero | hone
      · exact .inl (BitVec.eq_of_toNat_eq hzero)
      · exact .inr (BitVec.eq_of_toNat_eq hone)
    · rw [hzero]
      decide
    · rw [hone]
      decide
  · rw [if_neg hsmall]
    by_cases hfull : x = BitVec.allOnes 64
    · rw [if_pos hfull, hfull]
      decide
    · rw [if_neg hfull]

theorem toNat_cpop_eq_countP (x : BitVec 64) :
    x.cpop.toNat = (List.range' 0 64).countP x.getLsbD := by
  have hrec : ∀ n, x.cpopNatRec n 0 =
      (List.range n).countP x.getLsbD := by
    intro n
    induction n with
    | zero => rfl
    | succ n ih =>
        rw [BitVec.cpopNatRec_succ, BitVec.cpopNatRec_add, ih,
          List.range_succ, List.countP_append, List.countP_singleton]
        cases x.getLsbD n <;> simp
  rw [BitVec.toNat_cpop, hrec, List.range_eq_range']

/-- The population count of a masked field counts the set bits of the part of
the range that the mask selects. -/
theorem popcount_and_ones (hfit : start + count ≤ 64) :
    popcount (bitmap field &&& ones count start) =
      countSet bitmap (64 * field + start) (64 * field + start + count) := by
  have hbits : ∀ j < 64, (bitmap field &&& ones count start).getLsbD j =
      ((bitmap field).getLsbD j &&
        decide (start ≤ j ∧ j < start + count)) := by
    intro j hj
    rw [BitVec.getLsbD_and, getLsbD_ones hfit hj]
  have hsplit : List.range' 0 64 = List.range' 0 start ++
      (List.range' start count ++
        List.range' (start + count) (64 - (start + count))) := by
    have hmid := @List.range'_append_1 start count (64 - (start + count))
    have hall := @List.range'_append_1 0 start (64 - start)
    have hlen : count + (64 - (start + count)) = 64 - start := by omega
    have hlen' : start + (64 - start) = 64 := by omega
    rw [hlen] at hmid
    rw [hlen', Nat.zero_add] at hall
    rw [hmid, hall]
  have hbelow : (List.range' 0 start).countP
      (bitmap field &&& ones count start).getLsbD = 0 := by
    rw [List.countP_eq_zero]
    intro j hj
    rw [List.mem_range'_1] at hj
    have hout : ¬ (start ≤ j ∧ j < start + count) := by omega
    rw [hbits j (by omega), decide_eq_false hout, Bool.and_false]
    decide
  have habove : (List.range' (start + count)
      (64 - (start + count))).countP
      (bitmap field &&& ones count start).getLsbD = 0 := by
    rw [List.countP_eq_zero]
    intro j hj
    rw [List.mem_range'_1] at hj
    have hout : ¬ (start ≤ j ∧ j < start + count) := by omega
    rw [hbits j (by omega), decide_eq_false hout, Bool.and_false]
    decide
  rw [popcount_eq_cpop, toNat_cpop_eq_countP, hsplit, List.countP_append,
    List.countP_append, hbelow, habove, Nat.zero_add, Nat.add_zero]
  unfold countSet
  rw [Nat.add_sub_cancel_left, ← List.map_add_range', List.countP_map]
  apply List.countP_congr
  intro j hj
  rw [List.mem_range'_1] at hj
  rw [Function.comp_apply, bit_field (by omega), hbits j (by omega),
    decide_eq_true hj, Bool.and_true]

/-! ## What the walks keep -/

variable (bitmap : Fields) (count bitmapIdx : ℕ)

theorem bitmapUnclaimAcross_spec :
    let result := bitmapUnclaimAcross bitmap count bitmapIdx
    Clears bitmap result.2 bitmapIdx (bitmapIdx + count) ∧
      (result.1 = true ↔ Full bitmap bitmapIdx (bitmapIdx + count)) := by
  have hempty : Full bitmap bitmapIdx bitmapIdx := fun b hb hb' => by omega
  have hkeep := @walkAcross_spec _
    (fun field mask (s : Bool × Fields) =>
      (if s.2 field &&& mask ≠ mask then false else s.1,
        Function.update s.2 field (s.2 field &&& ~~~mask)))
    count bitmapIdx
    (fun x s => bitmapIdx ≤ x ∧ Clears bitmap s.2 bitmapIdx x ∧
      (s.1 = true ↔ Full bitmap bitmapIdx x))
    (true, bitmap)
    ⟨le_rfl, clears_empty bitmap bitmapIdx, by simp [hempty]⟩ ?_
  · exact hkeep.2
  · rintro field count start ⟨allOne, bitmap'⟩ hfit ⟨hle, hclears, hall⟩
    have hmask := @and_ones_eq_iff bitmap' field _ _ hfit
    rw [full_congr fun b hb hb' => hclears.outside (Or.inr hb)] at hmask
    refine ⟨by omega, ?_, ?_⟩
    · exact hclears.append (clears_and hfit) hle (by omega)
    · dsimp only at hall ⊢
      rw [full_append_iff hle (Nat.le_add_right _ count), ← hmask, ← hall]
      by_cases hfull : bitmap' field &&& ones count start = ones count start
      · simp [hfull]
      · simp [hfull]

theorem bitmapClaimAcross_spec :
    let result := bitmapClaimAcross bitmap count bitmapIdx
    Sets bitmap result.bitmap bitmapIdx (bitmapIdx + count) ∧
      (result.allZero = true ↔ Clear bitmap bitmapIdx (bitmapIdx + count)) ∧
      (result.anyZero = true ↔ ¬ Full bitmap bitmapIdx (bitmapIdx + count)) ∧
      result.oneCount = countSet bitmap bitmapIdx (bitmapIdx + count) := by
  have hclear : Clear bitmap bitmapIdx bitmapIdx := fun b hb hb' => by omega
  have hfull : Full bitmap bitmapIdx bitmapIdx := fun b hb hb' => by omega
  have hkeep := @walkAcross_spec _
    (fun field mask (s : ClaimAcross) =>
      { allZero := if s.bitmap field &&& mask ≠ 0 then false else s.allZero
        anyZero :=
          if s.bitmap field &&& mask ≠ mask then true else s.anyZero
        oneCount :=
          if s.bitmap field &&& mask ≠ 0 then
            s.oneCount + popcount (s.bitmap field &&& mask)
          else s.oneCount
        bitmap :=
          Function.update s.bitmap field (s.bitmap field ||| mask) })
    count bitmapIdx
    (fun x s => bitmapIdx ≤ x ∧ Sets bitmap s.bitmap bitmapIdx x ∧
      (s.allZero = true ↔ Clear bitmap bitmapIdx x) ∧
      (s.anyZero = true ↔ ¬ Full bitmap bitmapIdx x) ∧
      s.oneCount = countSet bitmap bitmapIdx x)
    ⟨true, false, 0, bitmap⟩
    ⟨le_rfl, sets_empty bitmap bitmapIdx, by simp [hclear], by simp [hfull],
      (countSet_empty bitmap bitmapIdx).symm⟩ ?_
  · exact hkeep.2
  · rintro field count start ⟨allZero, anyZero, oneCount, bitmap'⟩ hfit
      ⟨hle, hsets, hall, hany, hcount⟩
    have hsame : ∀ b, 64 * field + start ≤ b →
        b < 64 * field + start + count → bit bitmap' b = bit bitmap b :=
      fun b hb hb' => hsets.outside (Or.inr hb)
    have hmask := @and_ones_eq_iff bitmap' field _ _ hfit
    have hzero := @and_ones_eq_zero_iff bitmap' field _ _ hfit
    have hpop := @popcount_and_ones bitmap' count start field hfit
    rw [full_congr hsame] at hmask
    rw [clear_congr hsame] at hzero
    rw [countSet_congr hsame] at hpop
    have hend : 64 * field + start ≤ 64 * field + start + count :=
      Nat.le_add_right _ count
    dsimp only at hsets hall hany hcount ⊢
    refine ⟨by omega, ?_, ?_, ?_, ?_⟩
    · exact hsets.append (sets_or hfit) hle hend
    · rw [clear_append_iff hle hend, ← hzero, ← hall]
      by_cases hfree : bitmap' field &&& ones count start = 0
      · simp [hfree]
      · rw [if_pos hfree]
        exact ⟨fun hset => absurd hset Bool.false_ne_true,
          fun hset => absurd hset.2 hfree⟩
    · rw [full_append_iff hle hend, ← hmask, not_and_or, ← hany]
      by_cases hones : bitmap' field &&& ones count start = ones count start
      · simp [hones]
      · simp [hones]
    · rw [countSet_append hle hend, ← hpop, ← hcount]
      by_cases hfree : bitmap' field &&& ones count start = 0
      · rw [if_neg (not_not.mpr hfree), hfree]
        rfl
      · rw [if_pos hfree]

theorem bitmapIsClaimedxAcross_spec :
    let result := bitmapIsClaimedxAcross bitmap count bitmapIdx
    (result.allOnes = true ↔ Full bitmap bitmapIdx (bitmapIdx + count)) ∧
      (result.anyOnes = true ↔
        ¬ Clear bitmap bitmapIdx (bitmapIdx + count)) ∧
      result.oneCount = countSet bitmap bitmapIdx (bitmapIdx + count) := by
  have hclear : Clear bitmap bitmapIdx bitmapIdx := fun b hb hb' => by omega
  have hfull : Full bitmap bitmapIdx bitmapIdx := fun b hb hb' => by omega
  have hkeep := @walkAcross_spec _
    (fun field mask (s : ClaimedxAcross) =>
      { allOnes := if bitmap field &&& mask ≠ mask then false else s.allOnes
        anyOnes := if bitmap field &&& mask ≠ 0 then true else s.anyOnes
        oneCount :=
          if bitmap field &&& mask ≠ 0 then
            s.oneCount + popcount (bitmap field &&& mask)
          else s.oneCount })
    count bitmapIdx
    (fun x s => bitmapIdx ≤ x ∧
      (s.allOnes = true ↔ Full bitmap bitmapIdx x) ∧
      (s.anyOnes = true ↔ ¬ Clear bitmap bitmapIdx x) ∧
      s.oneCount = countSet bitmap bitmapIdx x)
    ⟨true, false, 0⟩
    ⟨le_rfl, by simp [hfull], by simp [hclear],
      (countSet_empty bitmap bitmapIdx).symm⟩ ?_
  · exact hkeep.2
  · rintro field count start ⟨allOnes, anyOnes, oneCount⟩ hfit
      ⟨hle, hall, hany, hcount⟩
    have hmask := @and_ones_eq_iff bitmap field _ _ hfit
    have hzero := @and_ones_eq_zero_iff bitmap field _ _ hfit
    have hpop := @popcount_and_ones bitmap count start field hfit
    have hend : 64 * field + start ≤ 64 * field + start + count :=
      Nat.le_add_right _ count
    dsimp only at hall hany hcount ⊢
    refine ⟨by omega, ?_, ?_, ?_⟩
    · rw [full_append_iff hle hend, ← hmask, ← hall]
      by_cases hones : bitmap field &&& ones count start = ones count start
      · simp [hones]
      · simp [hones]
    · rw [clear_append_iff hle hend, ← hzero, not_and_or, ← hany]
      by_cases hfree : bitmap field &&& ones count start = 0
      · simp [hfree]
      · rw [if_pos hfree]
        exact ⟨fun _ => .inr hfree, fun _ => rfl⟩
    · rw [countSet_append hle hend, ← hpop, ← hcount]
      by_cases hfree : bitmap field &&& ones count start = 0
      · rw [if_neg (not_not.mpr hfree), hfree]
        rfl
      · rw [if_pos hfree]

/-! ## The list of the bits -/

def rangeBits (bitmap : Fields) (bitmapIdx count : ℕ) : List Bool :=
  (List.range' bitmapIdx count).map (bit bitmap)

theorem all_rangeBits_iff :
    (rangeBits bitmap bitmapIdx count).all id = true ↔
      Full bitmap bitmapIdx (bitmapIdx + count) := by
  simp [rangeBits, Full, List.mem_range'_1]

theorem all_not_rangeBits_iff :
    (rangeBits bitmap bitmapIdx count).all not = true ↔
      Clear bitmap bitmapIdx (bitmapIdx + count) := by
  simp [rangeBits, Clear, List.mem_range'_1]

theorem count_rangeBits :
    (rangeBits bitmap bitmapIdx count).count true =
      countSet bitmap bitmapIdx (bitmapIdx + count) := by
  unfold rangeBits countSet List.count
  rw [Nat.add_sub_cancel_left, List.countP_map]
  apply List.countP_congr
  intro b _
  simp

/-- The operations across fields do to the bits of their range, and tell of
them, what a loop over the list of these bits would. -/
theorem across_rangeBits :
    (Sets bitmap (bitmapClaimAcross bitmap count bitmapIdx).bitmap bitmapIdx
        (bitmapIdx + count) ∧
      (bitmapClaimAcross bitmap count bitmapIdx).allZero =
        (rangeBits bitmap bitmapIdx count).all not ∧
      (bitmapClaimAcross bitmap count bitmapIdx).anyZero =
        (rangeBits bitmap bitmapIdx count).any not ∧
      (bitmapClaimAcross bitmap count bitmapIdx).oneCount =
        (rangeBits bitmap bitmapIdx count).count true) ∧
    (Clears bitmap (bitmapUnclaimAcross bitmap count bitmapIdx).2 bitmapIdx
        (bitmapIdx + count) ∧
      (bitmapUnclaimAcross bitmap count bitmapIdx).1 =
        (rangeBits bitmap bitmapIdx count).all id) ∧
    bitmapIsClaimedAcross bitmap count bitmapIdx =
      ((rangeBits bitmap bitmapIdx count).all id,
        (rangeBits bitmap bitmapIdx count).count true) ∧
    bitmapIsAnyClaimedAcross bitmap count bitmapIdx =
      (rangeBits bitmap bitmapIdx count).any id := by
  have hfull := all_rangeBits_iff bitmap count bitmapIdx
  have hclear := all_not_rangeBits_iff bitmap count bitmapIdx
  have hanyNot : (rangeBits bitmap bitmapIdx count).any not = true ↔
      ¬ Full bitmap bitmapIdx (bitmapIdx + count) := by
    rw [← hfull, Bool.not_eq_true, ← Bool.not_eq_true', List.not_all_eq_any_not]
    rfl
  have hany : (rangeBits bitmap bitmapIdx count).any id = true ↔
      ¬ Clear bitmap bitmapIdx (bitmapIdx + count) := by
    rw [← hclear, Bool.not_eq_true, ← Bool.not_eq_true', List.not_all_eq_any_not]
    simp
  obtain ⟨hsets, hall, hzero, hcount⟩ :=
    bitmapClaimAcross_spec bitmap count bitmapIdx
  obtain ⟨hclears, hone⟩ := bitmapUnclaimAcross_spec bitmap count bitmapIdx
  obtain ⟨hones, hsome, hnumber⟩ :=
    bitmapIsClaimedxAcross_spec bitmap count bitmapIdx
  rw [← count_rangeBits] at hcount hnumber
  refine ⟨⟨hsets, ?_, ?_, hcount⟩, ⟨hclears, ?_⟩, Prod.ext ?_ hnumber, ?_⟩
  · exact Bool.eq_iff_iff.mpr (hall.trans hclear.symm)
  · exact Bool.eq_iff_iff.mpr (hzero.trans hanyNot.symm)
  · exact Bool.eq_iff_iff.mpr (hone.trans hfull.symm)
  · exact Bool.eq_iff_iff.mpr (hones.trans hfull.symm)
  · exact Bool.eq_iff_iff.mpr (hsome.trans hany.symm)

end Palloc
