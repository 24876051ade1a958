import Palloc.BitFields
import Mathlib.Data.Finset.Card
import Mathlib.Order.Interval.Finset.Nat

/-!
# A 64-bit word as a set of slots

Bit `i` of a word stands for slot `i`.  Setting or clearing a run of bits adds
or removes an interval of slots, and the number of set bits is the size of the
set.  A search for a run shifts the word onto itself: after `n` rounds a bit
is left where `n + 1` bits in a row were set.
-/

namespace BitSlots

open BitFields

def slots (x : BitVec 64) : Finset ℕ :=
  (Finset.range 64).filter fun i => x.getLsbD i = true

/-- `count` ones from `slot` on; all of them for a whole word. -/
def runMask (count slot : ℕ) : BitVec 64 :=
  if count = 64 then BitVec.allOnes 64
  else ((1#64 <<< count) - 1#64) <<< slot

variable {x : BitVec 64} {count slot i : ℕ}

theorem mem_slots : i ∈ slots x ↔ x.getLsbD i = true := by
  unfold slots
  rw [Finset.mem_filter, Finset.mem_range]
  constructor
  · exact And.right
  · intro hbit
    exact ⟨BitVec.lt_of_getLsbD hbit, hbit⟩

theorem lt_of_mem_slots (hi : i ∈ slots x) : i < 64 :=
  BitVec.lt_of_getLsbD (mem_slots.mp hi)

theorem mem_slots_not (hi : i < 64) : i ∈ slots (~~~x) ↔ i ∉ slots x := by
  rw [mem_slots, mem_slots, BitVec.getLsbD_not]
  simp [hi]

theorem slots_zero : slots 0 = ∅ := by
  apply Finset.eq_empty_of_forall_notMem
  intro i hi
  rw [mem_slots] at hi
  simp at hi

theorem getLsbD_runMask (hfit : slot + count ≤ 64) (hi : i < 64) :
    (runMask count slot).getLsbD i =
      decide (slot ≤ i ∧ i < slot + count) := by
  unfold runMask
  split
  · have hin : slot ≤ i ∧ i < slot + count := by omega
    rw [BitVec.getLsbD_allOnes, decide_eq_true hi, decide_eq_true hin]
  · exact getLsbD_shifted_ones (by omega) hi

theorem slots_or_runMask (hfit : slot + count ≤ 64) :
    slots (x ||| runMask count slot) =
      slots x ∪ Finset.Ico slot (slot + count) := by
  ext i
  rw [Finset.mem_union, Finset.mem_Ico, mem_slots, mem_slots,
    BitVec.getLsbD_or, Bool.or_eq_true]
  by_cases hi : i < 64
  · rw [getLsbD_runMask hfit hi, decide_eq_true_eq]
  · have hout : ¬ (slot ≤ i ∧ i < slot + count) := by omega
    rw [BitVec.getLsbD_of_ge (runMask count slot) i (by omega)]
    simp [hout]

theorem slots_and_not_runMask (hfit : slot + count ≤ 64) :
    slots (x &&& ~~~runMask count slot) =
      slots x \ Finset.Ico slot (slot + count) := by
  ext i
  rw [Finset.mem_sdiff, Finset.mem_Ico, mem_slots, mem_slots,
    BitVec.getLsbD_and, BitVec.getLsbD_not]
  by_cases hi : i < 64
  · rw [getLsbD_runMask hfit hi, decide_eq_true hi, Bool.true_and,
      Bool.and_eq_true, Bool.not_eq_true', decide_eq_false_iff_not]
  · simp [BitVec.getLsbD_of_ge x i (by omega)]

/-! ## Counting -/

theorem cpopNatRec_eq_card (x : BitVec 64) (n : ℕ) :
    x.cpopNatRec n 0 =
      ((Finset.range n).filter fun i => x.getLsbD i = true).card := by
  induction n with
  | zero => rfl
  | succ n ih =>
      rw [BitVec.cpopNatRec_succ, BitVec.cpopNatRec_eq, ih,
        Finset.range_add_one, Finset.filter_insert]
      cases hbit : x.getLsbD n with
      | false => simp
      | true =>
          rw [if_pos rfl, Finset.card_insert_of_notMem (by simp)]
          simp

theorem cpop_eq_card (x : BitVec 64) : x.cpop.toNat = (slots x).card := by
  unfold BitVec.cpop
  rw [cpopNatRec_eq_card, BitVec.toNat_ofNat]
  apply Nat.mod_eq_of_lt
  calc (slots x).card ≤ (Finset.range 64).card := Finset.card_filter_le _ _
    _ < 2 ^ 64 := by
      rw [Finset.card_range]
      decide

theorem card_slots_le (x : BitVec 64) : (slots x).card ≤ 64 :=
  (Finset.card_filter_le _ _).trans_eq (Finset.card_range 64)

theorem card_slots_or (hfit : slot + count ≤ 64)
    (hfree : ∀ i, slot ≤ i → i < slot + count → i ∉ slots x) :
    (slots (x ||| runMask count slot)).card = (slots x).card + count := by
  rw [slots_or_runMask hfit, Finset.card_union_of_disjoint, Nat.card_Ico,
    Nat.add_sub_cancel_left]
  rw [Finset.disjoint_right]
  intro i hi
  rw [Finset.mem_Ico] at hi
  exact hfree i hi.1 hi.2

theorem card_slots_and_not (hfit : slot + count ≤ 64)
    (hlive : ∀ i, slot ≤ i → i < slot + count → i ∈ slots x) :
    (slots (x &&& ~~~runMask count slot)).card + count = (slots x).card := by
  have hsub : Finset.Ico slot (slot + count) ⊆ slots x := by
    intro i hi
    rw [Finset.mem_Ico] at hi
    exact hlive i hi.1 hi.2
  have hcard := Finset.card_sdiff_add_card_eq_card hsub
  rw [Nat.card_Ico, Nat.add_sub_cancel_left] at hcard
  rw [slots_and_not_runMask hfit]
  exact hcard

theorem not_ne_zero (hcard : (slots x).card < 64) : ~~~x ≠ 0#64 := by
  intro hzero
  have hfull : slots x = Finset.range 64 := by
    apply Finset.filter_true_of_mem
    intro i hi
    have hbit : (~~~x).getLsbD i = false := by
      rw [hzero]
      exact BitVec.getLsbD_zero
    rw [BitVec.getLsbD_not, decide_eq_true (Finset.mem_range.mp hi)] at hbit
    simpa using hbit
  rw [hfull, Finset.card_range] at hcard
  omega

theorem ctz_mem_slots (hx : x ≠ 0#64) : x.ctz.toNat ∈ slots x :=
  mem_slots.mpr (BitVec.getLsbD_true_ctz_of_ne_zero hx)

theorem ctz_le_of_mem_slots (hi : i ∈ slots x) : x.ctz.toNat ≤ i := by
  by_contra hlt
  rw [mem_slots, BitVec.getLsbD_false_of_lt_ctz (by omega)] at hi
  simp at hi

/-! ## Runs -/

/-- The rounds of a search for a run; `none` when no bit is left. -/
def shiftOnto : ℕ → BitVec 64 → Option (BitVec 64)
  | 0, run => some run
  | rounds + 1, run =>
      let run := run &&& (run >>> 1)
      if run = 0 then none else shiftOnto rounds run

theorem shiftOnto_ne_zero {rounds : ℕ} {run run' : BitVec 64}
    (hshift : shiftOnto (rounds + 1) run = some run') : run' ≠ 0 := by
  induction rounds generalizing run with
  | zero =>
      unfold shiftOnto at hshift
      dsimp only at hshift
      split at hshift
      · cases hshift
      · rename_i hrun
        injection hshift with hshift
        rw [← hshift]
        exact hrun
  | succ rounds ih =>
      rw [shiftOnto] at hshift
      split at hshift
      · cases hshift
      · exact ih hshift

theorem mem_slots_shift :
    i ∈ slots (x &&& (x >>> 1)) ↔ i ∈ slots x ∧ i + 1 ∈ slots x := by
  rw [mem_slots, mem_slots, mem_slots, BitVec.getLsbD_and,
    BitVec.getLsbD_ushiftRight, Bool.and_eq_true, Nat.add_comm 1 i]

theorem shiftOnto_spec {rounds : ℕ} {run run' : BitVec 64}
    (hshift : shiftOnto rounds run = some run') :
    ∀ i, i ∈ slots run' ↔ ∀ j ≤ rounds, i + j ∈ slots run := by
  induction rounds generalizing run with
  | zero =>
      intro i
      injection hshift with hshift
      rw [hshift]
      simp
  | succ rounds ih =>
      unfold shiftOnto at hshift
      dsimp only at hshift
      split at hshift
      · cases hshift
      intro i
      rw [ih hshift i]
      constructor
      · intro hrun j hj
        rcases Nat.lt_or_eq_of_le hj with hlt | rfl
        · exact (mem_slots_shift.mp (hrun j (by omega))).1
        · exact (mem_slots_shift.mp (hrun rounds le_rfl)).2
      · intro hrun j hj
        exact mem_slots_shift.mpr ⟨hrun j (by omega), hrun (j + 1) (by omega)⟩

theorem shiftOnto_eq_none {rounds : ℕ} {run : BitVec 64}
    (hshift : shiftOnto rounds run = none) (i : ℕ) :
    ∃ j ≤ rounds, i + j ∉ slots run := by
  induction rounds generalizing run with
  | zero => simp [shiftOnto] at hshift
  | succ rounds ih =>
      -- a place that one round clears is the start of no run of two
      have hround : ∀ place, place ∉ slots (run &&& run >>> 1) →
          place ∉ slots run ∨ place + 1 ∉ slots run := by
        intro place hplace
        rw [mem_slots_shift, not_and_or] at hplace
        exact hplace
      unfold shiftOnto at hshift
      dsimp only at hshift
      split at hshift
      · rename_i hzero
        have hclear : i ∉ slots (run &&& run >>> 1) := by
          rw [hzero, slots_zero]
          exact Finset.notMem_empty i
        rcases hround i hclear with hfirst | hsecond
        · exact ⟨0, by omega, hfirst⟩
        · exact ⟨1, by omega, hsecond⟩
      · obtain ⟨j, hj, hclear⟩ := ih hshift
        rcases hround (i + j) hclear with hfirst | hsecond
        · exact ⟨j, by omega, hfirst⟩
        · exact ⟨j + 1, by omega, hsecond⟩

end BitSlots
