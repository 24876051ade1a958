import Palloc.BitFields
import Mathlib.Data.BitVec
import Mathlib.Data.Fintype.Pi
import Mathlib.Data.Fintype.Basic

/-!
# Commit masks

A segment tracks which of its 512 slices are committed, and which of these
may be purged, in masks of eight 64-bit fields.  The operations work field by
field; `getBit` is the bit view that their lemmas use.
-/

namespace Palloc

abbrev commitMaskBits : ℕ := 512
abbrev commitMaskFieldBits : ℕ := 64
abbrev commitMaskFieldCount : ℕ := 8

/-- `pa_commit_mask_t`. -/
@[ext] structure CommitMask where
  mask : Fin 8 → BitVec 64
  deriving DecidableEq

namespace CommitMask

def createEmpty : CommitMask := ⟨fun _ => 0⟩

def createFull : CommitMask := ⟨fun _ => BitVec.allOnes 64⟩

def isEmpty (cm : CommitMask) : Prop := ∀ i, cm.mask i = 0

def isFull (cm : CommitMask) : Prop := ∀ i, cm.mask i = BitVec.allOnes 64

def allSet (commit cm : CommitMask) : Prop :=
  ∀ i, commit.mask i &&& cm.mask i = cm.mask i

def anySet (commit cm : CommitMask) : Prop :=
  ∃ i, commit.mask i &&& cm.mask i ≠ 0

def createIntersect (commit cm : CommitMask) : CommitMask :=
  ⟨fun i => commit.mask i &&& cm.mask i⟩

def clear (res cm : CommitMask) : CommitMask :=
  ⟨fun i => res.mask i &&& ~~~cm.mask i⟩

def set (res cm : CommitMask) : CommitMask :=
  ⟨fun i => res.mask i ||| cm.mask i⟩

instance (cm : CommitMask) : Decidable cm.isEmpty :=
  inferInstanceAs (Decidable (∀ _, _))

instance (cm : CommitMask) : Decidable cm.isFull :=
  inferInstanceAs (Decidable (∀ _, _))

instance (commit cm : CommitMask) : Decidable (commit.allSet cm) :=
  inferInstanceAs (Decidable (∀ _, _))

instance (commit cm : CommitMask) : Decidable (commit.anySet cm) :=
  inferInstanceAs (Decidable (∃ _, _))

/-- Write one field; there is nothing to write behind the last one. -/
def setField (cm : CommitMask) (i : ℕ) (mask : BitVec 64) : CommitMask :=
  ⟨fun j => if j.val = i then mask else cm.mask j⟩

/-- The loop of `pa_commit_mask_create`, at most `fuel` fields. -/
def createFields :
    (fuel : ℕ) → (i ofs bitcount : ℕ) → CommitMask → CommitMask
  | 0, _, _, _, cm => cm
  | fuel + 1, i, ofs, bitcount, cm =>
      if bitcount = 0 then cm
      else
        let avail := commitMaskFieldBits - ofs
        let count := if avail < bitcount then avail else bitcount
        let mask :=
          if commitMaskFieldBits ≤ count then BitVec.allOnes 64
          else ((1#64 <<< count) - 1#64) <<< ofs
        createFields fuel (i + 1) 0 (bitcount - count) (cm.setField i mask)

/-- `pa_commit_mask_create`.  A round of the loop takes at least one bit. -/
def create (bitidx bitcount : ℕ) : CommitMask :=
  if bitcount = commitMaskBits then createFull
  else if bitcount = 0 then createEmpty
  else
    createFields bitcount (bitidx / commitMaskFieldBits)
      (bitidx % commitMaskFieldBits) bitcount createEmpty

/-! ## The bit view -/

def getBit (cm : CommitMask) (bit : ℕ) : Bool :=
  if h : bit / 64 < 8 then (cm.mask ⟨bit / 64, h⟩).getLsbD (bit % 64)
  else false

theorem getBit_field (cm : CommitMask) (i : Fin 8) {j : ℕ} (hj : j < 64) :
    cm.getBit (64 * i + j) = (cm.mask i).getLsbD j := by
  have hdiv : (64 * i.val + j) / 64 = i.val := by omega
  have hmod : (64 * i.val + j) % 64 = j := by omega
  unfold getBit
  simp only [hdiv, hmod, i.isLt, dite_true]

theorem getBit_eq {cm : CommitMask} {bit : ℕ} (hbit : bit < 512) :
    cm.getBit bit =
      (cm.mask ⟨bit / 64, by omega⟩).getLsbD (bit % 64) := by
  have hfield : bit / 64 < 8 := by omega
  simp only [getBit, hfield, dite_true]

theorem mask_eq_iff {x y : Fin 8 → BitVec 64} :
    (∀ i, x i = y i) ↔
      ∀ bit (h : bit < 512), (x ⟨bit / 64, by omega⟩).getLsbD (bit % 64) =
        (y ⟨bit / 64, by omega⟩).getLsbD (bit % 64) := by
  constructor
  · intro heq bit hbit
    rw [heq]
  · intro heq i
    apply BitVec.eq_of_getLsbD_eq
    intro j hj
    have hbit := heq (64 * i.val + j) (by omega)
    have hdiv : (64 * i.val + j) / 64 = i.val := by omega
    have hmod : (64 * i.val + j) % 64 = j := by omega
    simpa only [hdiv, hmod] using hbit

@[simp] theorem getBit_createEmpty (bit : ℕ) :
    createEmpty.getBit bit = false := by
  simp [getBit, createEmpty]

theorem getBit_createFull {bit : ℕ} (hbit : bit < 512) :
    createFull.getBit bit = true := by
  rw [getBit_eq hbit]
  simp only [createFull, BitVec.getLsbD_allOnes, decide_eq_true_eq]
  omega

theorem getBit_set (res cm : CommitMask) (bit : ℕ) :
    (res.set cm).getBit bit = (res.getBit bit || cm.getBit bit) := by
  unfold getBit set
  split <;> simp

theorem getBit_clear (res cm : CommitMask) (bit : ℕ) :
    (res.clear cm).getBit bit = (res.getBit bit && !cm.getBit bit) := by
  unfold getBit clear
  split
  · have hmod : bit % 64 < 64 := by omega
    simp [hmod]
  · rfl

theorem getBit_createIntersect (commit cm : CommitMask) (bit : ℕ) :
    (createIntersect commit cm).getBit bit =
      (commit.getBit bit && cm.getBit bit) := by
  unfold getBit createIntersect
  split <;> simp

theorem allSet_iff {commit cm : CommitMask} :
    commit.allSet cm ↔
      ∀ bit < 512, cm.getBit bit = true → commit.getBit bit = true := by
  unfold allSet
  rw [mask_eq_iff]
  constructor
  · intro hall bit hbit hcm
    have heq := hall bit hbit
    rw [getBit_eq hbit] at hcm ⊢
    simp only [BitVec.getLsbD_and, hcm, Bool.and_true] at heq
    exact heq
  · intro hall bit hbit
    have himp := hall bit hbit
    rw [getBit_eq hbit, getBit_eq hbit] at himp
    rw [BitVec.getLsbD_and]
    cases hcm : (cm.mask ⟨bit / 64, by omega⟩).getLsbD (bit % 64) with
    | false => simp
    | true => simp [himp hcm]

theorem isEmpty_iff {cm : CommitMask} :
    cm.isEmpty ↔ ∀ bit < 512, cm.getBit bit = false := by
  unfold isEmpty
  rw [mask_eq_iff]
  constructor
  · intro hall bit hbit
    rw [getBit_eq hbit, hall bit hbit]
    simp
  · intro hall bit hbit
    have hfalse := hall bit hbit
    rw [getBit_eq hbit] at hfalse
    simpa using hfalse

theorem isFull_iff {cm : CommitMask} :
    cm.isFull ↔ ∀ bit < 512, cm.getBit bit = true := by
  unfold isFull
  rw [mask_eq_iff]
  constructor
  · intro hall bit hbit
    rw [getBit_eq hbit, hall bit hbit]
    simp only [BitVec.getLsbD_allOnes, decide_eq_true_eq]
    omega
  · intro hall bit hbit
    have htrue := hall bit hbit
    have hmod : bit % 64 < 64 := by omega
    rw [getBit_eq hbit] at htrue
    rw [htrue, BitVec.getLsbD_allOnes, decide_eq_true hmod]

theorem getBit_setField {cm : CommitMask} {i : ℕ} {mask : BitVec 64} {bit : ℕ} (hbit : bit < 512) :
    (cm.setField i mask).getBit bit =
      if bit / 64 = i then mask.getLsbD (bit % 64) else cm.getBit bit := by
  rw [getBit_eq hbit, getBit_eq hbit]
  unfold setField
  simp only
  split <;> rfl

theorem getBit_createFields {fuel i ofs bitcount : ℕ} {cm : CommitMask}
    (hfuel : bitcount ≤ fuel) (hofs : ofs < 64)
    (hend : 64 * i + ofs + bitcount ≤ 512)
    (hclear : ∀ bit, 64 * i ≤ bit → cm.getBit bit = false)
    {bit : ℕ} (hbit : bit < 512) :
    (createFields fuel i ofs bitcount cm).getBit bit =
      (cm.getBit bit ||
        decide (64 * i + ofs ≤ bit ∧ bit < 64 * i + ofs + bitcount)) := by
  induction fuel generalizing i ofs bitcount cm with
  | zero =>
      have hnone : ¬ (64 * i + ofs ≤ bit ∧
          bit < 64 * i + ofs + bitcount) := by omega
      simp [createFields, hnone]
  | succ fuel ih =>
      unfold createFields
      by_cases hzero : bitcount = 0
      · have hnone : ¬ (64 * i + ofs ≤ bit ∧
            bit < 64 * i + ofs + bitcount) := by omega
        simp only [if_pos hzero, hnone, decide_false, Bool.or_false]
      · simp only [if_neg hzero]
        set count := if 64 - ofs < bitcount then 64 - ofs else bitcount
          with hcount
        have hle : count ≤ bitcount := by
          rw [hcount]
          split <;> omega
        have hle' : ofs + count ≤ 64 := by
          rw [hcount]
          split <;> omega
        have hpos : 0 < count := by
          rw [hcount]
          split <;> omega
        have hmask : ∀ j < 64,
            (if 64 ≤ count then BitVec.allOnes 64
              else ((1#64 <<< count) - 1#64) <<< ofs).getLsbD j =
                decide (ofs ≤ j ∧ j < ofs + count) := by
          intro j hj
          split
          · have hall : ofs ≤ j ∧ j < ofs + count := by omega
            rw [BitVec.getLsbD_allOnes, decide_eq_true hj,
              decide_eq_true hall]
          · exact BitFields.getLsbD_shifted_ones (by omega) hj
        have hnext : ∀ other, 64 * (i + 1) ≤ other →
            (cm.setField i (if 64 ≤ count then BitVec.allOnes 64
              else ((1#64 <<< count) - 1#64) <<< ofs)).getBit other =
                false := by
          intro other hother
          by_cases hin : other < 512
          · rw [getBit_setField hin, if_neg (by omega)]
            exact hclear other (by omega)
          · have hout : ¬ other / 64 < 8 := by omega
            simp [getBit, hout]
        have hrest : bitcount - count = 0 ∨ ofs + count = 64 := by
          rw [hcount]
          split <;> omega
        rcases hrest with hdone | hfull
        · rw [hdone]
          have hstop : ∀ cm', createFields fuel (i + 1) 0 0 cm' = cm' := by
            intro cm'
            cases fuel <;> simp [createFields]
          rw [hstop, getBit_setField hbit]
          have hsame : count = bitcount := by omega
          by_cases hdiv : bit / 64 = i
          · rw [if_pos hdiv, hmask _ (by omega), hclear bit (by omega)]
            have hiff : (ofs ≤ bit % 64 ∧ bit % 64 < ofs + count) ↔
                (64 * i + ofs ≤ bit ∧
                  bit < 64 * i + ofs + bitcount) := by omega
            simp [hiff]
          · have hnone : ¬ (64 * i + ofs ≤ bit ∧
                bit < 64 * i + ofs + bitcount) := by omega
            rw [if_neg hdiv]
            simp [hnone]
        · rw [ih (by omega) (by omega) (by omega) hnext,
            getBit_setField hbit]
          by_cases hdiv : bit / 64 = i
          · rw [if_pos hdiv, hmask _ (by omega), hclear bit (by omega)]
            have hiff : (64 * i + ofs ≤ bit ∧
                bit < 64 * i + ofs + bitcount) ↔
                (ofs ≤ bit % 64 ∧ bit % 64 < ofs + count) := by omega
            have hnone : ¬ (64 * (i + 1) + 0 ≤ bit ∧
                bit < 64 * (i + 1) + 0 + (bitcount - count)) := by omega
            rw [decide_eq_decide.mpr hiff, decide_eq_false hnone,
              Bool.or_false, Bool.false_or]
          · have hiff : (64 * (i + 1) + 0 ≤ bit ∧
                bit < 64 * (i + 1) + 0 + (bitcount - count)) ↔
                (64 * i + ofs ≤ bit ∧
                  bit < 64 * i + ofs + bitcount) := by omega
            rw [if_neg hdiv, decide_eq_decide.mpr hiff]

theorem getBit_create {bitidx bitcount : ℕ}
    (hend : bitidx + bitcount ≤ 512) {bit : ℕ} (hbit : bit < 512) :
    (create bitidx bitcount).getBit bit =
      decide (bitidx ≤ bit ∧ bit < bitidx + bitcount) := by
  unfold create commitMaskBits commitMaskFieldBits
  by_cases hfull : bitcount = 512
  · have hall : bitidx ≤ bit ∧ bit < bitidx + bitcount := by omega
    rw [if_pos hfull, getBit_createFull hbit]
    simp [hall]
  · by_cases hzero : bitcount = 0
    · have hnone : ¬ (bitidx ≤ bit ∧ bit < bitidx + bitcount) := by omega
      simp only [if_neg hfull, if_pos hzero, getBit_createEmpty, hnone,
        decide_false]
    · have hidx : 64 * (bitidx / 64) + bitidx % 64 = bitidx := by omega
      rw [if_neg hfull, if_neg hzero,
        getBit_createFields le_rfl (by omega) (by omega)
          (fun other _ => getBit_createEmpty other) hbit, hidx]
      simp

/-! ## Runs of set bits -/

/-- The loop that shifts to the first set bit of a field. -/
def skipZerosLoop : (fuel : ℕ) → BitVec 64 → (ofs : ℕ) →
    Option (BitVec 64 × ℕ)
  | 0, _, _ => none
  | fuel + 1, mask, ofs =>
      if mask &&& 1 = 0 then skipZerosLoop fuel (mask >>> 1) (ofs + 1)
      else some (mask, ofs)

/-- The loop that finds the first set bit: its field, its offset and the
field shifted down to it, or nothing behind the last field. -/
def findOnesLoop (cm : CommitMask) : (fuel : ℕ) → (i ofs : ℕ) →
    Option (Option (ℕ × ℕ × BitVec 64))
  | 0, _, _ => none
  | fuel + 1, i, ofs =>
      if h : i < 8 then
        let mask := cm.mask ⟨i, h⟩ >>> ofs
        if mask ≠ 0 then
          (skipZerosLoop 64 mask ofs).map fun found =>
            some (i, found.2, found.1)
        else findOnesLoop cm fuel (i + 1) 0
      else some none

def countOnesLoop : (fuel : ℕ) → BitVec 64 → (count : ℕ) →
    Option (BitVec 64 × ℕ)
  | 0, _, _ => none
  | fuel + 1, mask, count =>
      let mask := mask >>> 1
      if mask &&& 1 = 1 then countOnesLoop fuel mask (count + 1)
      else some (mask, count + 1)

def countRunLoop (cm : CommitMask) (idx : ℕ) : (fuel : ℕ) → (i : ℕ) →
    BitVec 64 → (count : ℕ) → Option ℕ
  | 0, _, _, _ => none
  | fuel + 1, i, mask, count =>
      match countOnesLoop 64 mask count with
      | none => none
      | some (mask, count) =>
          if (idx + count) % commitMaskFieldBits = 0 then
            if h : i + 1 < 8 then
              let mask := cm.mask ⟨i + 1, h⟩
              if mask &&& 1 = 1 then
                countRunLoop cm idx fuel (i + 1) mask count
              else some count
            else some count
          else if mask &&& 1 = 1 then countRunLoop cm idx fuel i mask count
          else some count

/-- `_pa_commit_mask_next_run`: the new index and the length. -/
def nextRunLoop (cm : CommitMask) (idx : ℕ) : Option (ℕ × ℕ) :=
  match cm.findOnesLoop (commitMaskFieldCount + 1)
      (idx / commitMaskFieldBits) (idx % commitMaskFieldBits) with
  | none => none
  | some none => some (commitMaskBits, 0)
  | some (some (i, ofs, mask)) =>
      let idx := i * commitMaskFieldBits + ofs
      (cm.countRunLoop idx (commitMaskFieldCount + 1) i mask 0).map
        fun count => (idx, count)

/-- The new index and the length, from loops that end. -/
def nextRun (cm : CommitMask) (idx : ℕ) : ℕ × ℕ :=
  (cm.nextRunLoop idx).getD (commitMaskBits, 0)

example : (create 60 10).nextRun 3 = (60, 10) := by decide

end CommitMask

end Palloc
