import Mathlib.Data.BitVec
import Mathlib.Logic.Function.Basic

/-!
# Arrays of 64-bit fields as sets of bits

Bit `b` of an array lies in field `b / 64`.  Operations on one field with a
mask of consecutive ones set, clear or test a range of bits; longer ranges are
put together from adjacent ones.
-/

namespace BitFields

abbrev Fields := ℕ → BitVec 64

def bit (map : Fields) (b : ℕ) : Bool := (map (b / 64)).getLsbD (b % 64)

/-- `count` ones from `start` on. -/
def ones (count start : ℕ) : BitVec 64 :=
  if 64 ≤ count then BitVec.allOnes 64
  else if count = 0 then 0
  else ((1#64 <<< count) - 1#64) <<< start

theorem getLsbD_shifted_ones {count ofs j : ℕ} (hcount : count < 64)
    (hj : j < 64) :
    (((1#64 <<< count) - 1#64) <<< ofs).getLsbD j =
      decide (ofs ≤ j ∧ j < ofs + count) := by
  have hmod : 2 ^ count % 18446744073709551616 = 2 ^ count :=
    Nat.mod_eq_of_lt (Nat.pow_lt_pow_right (by omega) hcount)
  have hpos : 1 ≤ 2 ^ count := Nat.one_le_two_pow
  have hnat : ((1#64 <<< count) - 1#64).toNat = 2 ^ count - 1 := by
    rw [BitVec.toNat_sub_of_le]
    · simp [Nat.shiftLeft_eq, hmod]
    · rw [BitVec.le_def]
      simpa [Nat.shiftLeft_eq, hmod] using hpos
  rw [BitVec.getLsbD_shiftLeft, ← BitVec.testBit_toNat, hnat,
    Nat.testBit_two_pow_sub_one]
  simp only [hj, decide_true, Bool.true_and]
  by_cases hofs : j < ofs
  · have hle : ¬ ofs ≤ j := by omega
    simp [hofs, hle]
  · have hle : ofs ≤ j := by omega
    have hiff : j - ofs < count ↔ j < ofs + count := by omega
    simp [hofs, hle, hiff]

theorem getLsbD_ones {count start j : ℕ} (hfit : start + count ≤ 64)
    (hj : j < 64) :
    (ones count start).getLsbD j =
      decide (start ≤ j ∧ j < start + count) := by
  unfold ones
  split
  · have hin : start ≤ j ∧ j < start + count := by omega
    rw [BitVec.getLsbD_allOnes, decide_eq_true hj, decide_eq_true hin]
  · split
    · have hout : ¬ (start ≤ j ∧ j < start + count) := by omega
      rw [decide_eq_false hout]
      exact BitVec.getLsbD_zero
    · exact getLsbD_shifted_ones (by omega) hj

/-! ## Ranges -/

variable {map map' map'' : Fields} {lo mid hi field count start b : ℕ}

def Clear (map : Fields) (lo hi : ℕ) : Prop :=
  ∀ b, lo ≤ b → b < hi → bit map b = false

def Full (map : Fields) (lo hi : ℕ) : Prop :=
  ∀ b, lo ≤ b → b < hi → bit map b = true

def Sets (map map' : Fields) (lo hi : ℕ) : Prop :=
  ∀ b, bit map' b = (bit map b || decide (lo ≤ b ∧ b < hi))

/-- The bits of a range become clear, the others stay. -/
def Clears (map map' : Fields) (lo hi : ℕ) : Prop :=
  ∀ b, bit map' b = (bit map b && !decide (lo ≤ b ∧ b < hi))

theorem bit_field {j : ℕ} (hj : j < 64) :
    bit map (64 * field + j) = (map field).getLsbD j := by
  have hdiv : (64 * field + j) / 64 = field := by omega
  have hmod : (64 * field + j) % 64 = j := by omega
  unfold bit
  rw [hdiv, hmod]

theorem ext_bit (heq : ∀ b, bit map b = bit map' b) : map = map' := by
  funext field
  apply BitVec.eq_of_getLsbD_eq
  intro j hj
  rw [← bit_field hj, ← bit_field hj]
  exact heq _

theorem bit_update (value : BitVec 64) (b : ℕ) :
    bit (Function.update map field value) b =
      if b / 64 = field then value.getLsbD (b % 64) else bit map b := by
  unfold bit
  by_cases hfield : b / 64 = field
  · rw [if_pos hfield, hfield, Function.update_self]
  · rw [if_neg hfield, Function.update_of_ne hfield]

theorem getLsbD_ones_mod (hfit : start + count ≤ 64) (b : ℕ) :
    (decide (b / 64 = field) && (ones count start).getLsbD (b % 64)) =
      decide (64 * field + start ≤ b ∧ b < 64 * field + start + count) := by
  rw [getLsbD_ones hfit (Nat.mod_lt b (by decide)), ← Bool.decide_and,
    decide_eq_decide]
  omega

theorem sets_or (hfit : start + count ≤ 64) :
    Sets map (Function.update map field (map field ||| ones count start))
      (64 * field + start) (64 * field + start + count) := by
  intro b
  rw [bit_update, ← getLsbD_ones_mod hfit b]
  by_cases hfield : b / 64 = field
  · simp [hfield, bit]
  · simp [hfield]

theorem clears_and (hfit : start + count ≤ 64) :
    Clears map (Function.update map field (map field &&& ~~~ones count start))
      (64 * field + start) (64 * field + start + count) := by
  intro b
  have hmod : b % 64 < 64 := Nat.mod_lt b (by decide)
  rw [bit_update, ← getLsbD_ones_mod hfit b]
  by_cases hfield : b / 64 = field
  · simp [hfield, bit, hmod]
  · simp [hfield]

theorem and_ones_eq_zero_iff (hfit : start + count ≤ 64) :
    map field &&& ones count start = 0 ↔
      Clear map (64 * field + start) (64 * field + start + count) := by
  constructor
  · intro hzero b hlo hhi
    have hj : b - 64 * field < 64 := by omega
    have heq : b = 64 * field + (b - 64 * field) := by omega
    have hbit : (map field &&& ones count start).getLsbD (b - 64 * field) =
        false := by
      rw [hzero]
      exact BitVec.getLsbD_zero
    have hin : start ≤ b - 64 * field ∧ b - 64 * field < start + count := by
      omega
    rw [BitVec.getLsbD_and, getLsbD_ones hfit hj, decide_eq_true hin,
      Bool.and_true] at hbit
    rw [heq, bit_field hj]
    exact hbit
  · intro hclear
    apply BitVec.eq_of_getLsbD_eq
    intro j hj
    rw [BitVec.getLsbD_and, getLsbD_ones hfit hj]
    by_cases hin : start ≤ j ∧ j < start + count
    · rw [← bit_field hj, hclear _ (by omega) (by omega)]
      exact BitVec.getLsbD_zero.symm
    · rw [decide_eq_false hin, Bool.and_false]
      exact BitVec.getLsbD_zero.symm

theorem and_ones_eq_iff (hfit : start + count ≤ 64) :
    map field &&& ones count start = ones count start ↔
      Full map (64 * field + start) (64 * field + start + count) := by
  constructor
  · intro hmask b hlo hhi
    have hj : b - 64 * field < 64 := by omega
    have heq : b = 64 * field + (b - 64 * field) := by omega
    have hin : start ≤ b - 64 * field ∧ b - 64 * field < start + count := by
      omega
    have hbit : (map field &&& ones count start).getLsbD (b - 64 * field) =
        (ones count start).getLsbD (b - 64 * field) := by
      rw [hmask]
    rw [BitVec.getLsbD_and, getLsbD_ones hfit hj, decide_eq_true hin,
      Bool.and_true] at hbit
    rw [heq, bit_field hj]
    exact hbit
  · intro hfull
    apply BitVec.eq_of_getLsbD_eq
    intro j hj
    rw [BitVec.getLsbD_and, getLsbD_ones hfit hj]
    by_cases hin : start ≤ j ∧ j < start + count
    · rw [← bit_field hj, hfull _ (by omega) (by omega)]
      rfl
    · rw [decide_eq_false hin, Bool.and_false]

/-! ## Putting ranges together -/

theorem Clear.mono {lo' hi' : ℕ} (hclear : Clear map lo hi) (hlo : lo ≤ lo')
    (hhi : hi' ≤ hi) : Clear map lo' hi' :=
  fun b hb hb' => hclear b (hlo.trans hb) (lt_of_lt_of_le hb' hhi)

theorem Clear.append (hleft : Clear map lo mid) (hright : Clear map mid hi) :
    Clear map lo hi := by
  intro b hlo hhi
  by_cases hmid : b < mid
  · exact hleft b hlo hmid
  · exact hright b (not_lt.mp hmid) hhi

theorem clear_append_iff (hlo : lo ≤ mid) (hhi : mid ≤ hi) :
    Clear map lo hi ↔ Clear map lo mid ∧ Clear map mid hi := by
  constructor
  · intro hclear
    exact ⟨hclear.mono le_rfl hhi, hclear.mono hlo le_rfl⟩
  · intro hboth
    exact hboth.1.append hboth.2

theorem full_append_iff (hlo : lo ≤ mid) (hhi : mid ≤ hi) :
    Full map lo hi ↔ Full map lo mid ∧ Full map mid hi := by
  constructor
  · intro hfull
    exact ⟨fun b hb hb' => hfull b hb (hb'.trans_le hhi),
      fun b hb hb' => hfull b (hlo.trans hb) hb'⟩
  · rintro ⟨hleft, hright⟩ b hb hb'
    by_cases hmid : b < mid
    · exact hleft b hb hmid
    · exact hright b (not_lt.mp hmid) hb'

theorem clear_congr (heq : ∀ b, lo ≤ b → b < hi → bit map' b = bit map b) :
    Clear map' lo hi ↔ Clear map lo hi := by
  constructor
  · intro hclear b hb hb'
    rw [← heq b hb hb']
    exact hclear b hb hb'
  · intro hclear b hb hb'
    rw [heq b hb hb']
    exact hclear b hb hb'

theorem full_congr (heq : ∀ b, lo ≤ b → b < hi → bit map' b = bit map b) :
    Full map' lo hi ↔ Full map lo hi := by
  constructor
  · intro hfull b hb hb'
    rw [← heq b hb hb']
    exact hfull b hb hb'
  · intro hfull b hb hb'
    rw [heq b hb hb']
    exact hfull b hb hb'

theorem Sets.outside (hsets : Sets map map' lo hi) (hout : b < lo ∨ hi ≤ b) :
    bit map' b = bit map b := by
  have hnot : ¬ (lo ≤ b ∧ b < hi) := by omega
  rw [hsets b, decide_eq_false hnot, Bool.or_false]

theorem Sets.inside (hsets : Sets map map' lo hi) (hlo : lo ≤ b)
    (hhi : b < hi) : bit map' b = true := by
  rw [hsets b, decide_eq_true ⟨hlo, hhi⟩, Bool.or_true]

theorem Clears.outside (hclears : Clears map map' lo hi)
    (hout : b < lo ∨ hi ≤ b) : bit map' b = bit map b := by
  have hnot : ¬ (lo ≤ b ∧ b < hi) := by omega
  rw [hclears b, decide_eq_false hnot, Bool.not_false, Bool.and_true]

theorem Clears.inside (hclears : Clears map map' lo hi) (hlo : lo ≤ b)
    (hhi : b < hi) : bit map' b = false := by
  rw [hclears b, decide_eq_true ⟨hlo, hhi⟩, Bool.not_true, Bool.and_false]

theorem Sets.append (hleft : Sets map map' lo mid)
    (hright : Sets map' map'' mid hi) (hlo : lo ≤ mid) (hhi : mid ≤ hi) :
    Sets map map'' lo hi := by
  intro b
  rw [hright b, hleft b, Bool.or_assoc, ← Bool.decide_or]
  congr 1
  rw [decide_eq_decide]
  omega

theorem Clears.append (hleft : Clears map map' lo mid)
    (hright : Clears map' map'' mid hi) (hlo : lo ≤ mid) (hhi : mid ≤ hi) :
    Clears map map'' lo hi := by
  intro b
  rw [hright b, hleft b, Bool.and_assoc, ← Bool.not_or, ← Bool.decide_or]
  congr 2
  rw [decide_eq_decide]
  omega

theorem sets_empty (map : Fields) (lo : ℕ) : Sets map map lo lo := by
  intro b
  have hout : ¬ (lo ≤ b ∧ b < lo) := by omega
  rw [decide_eq_false hout, Bool.or_false]

theorem clears_empty (map : Fields) (lo : ℕ) : Clears map map lo lo := by
  intro b
  have hout : ¬ (lo ≤ b ∧ b < lo) := by omega
  rw [decide_eq_false hout, Bool.not_false, Bool.and_true]

theorem Sets.undo (hsets : Sets map map' lo hi)
    (hclears : Clears map' map'' lo hi) (hclear : Clear map lo hi) :
    map'' = map := by
  apply ext_bit
  intro b
  rw [hclears b, hsets b]
  by_cases hin : lo ≤ b ∧ b < hi
  · rw [hclear b hin.1 hin.2, decide_eq_true hin]
    rfl
  · rw [decide_eq_false hin, Bool.or_false, Bool.not_false, Bool.and_true]

/-! ## Leading and trailing zeros -/

theorem clear_clz :
    Clear map (64 * field + 64 - (map field).clz.toNat)
      (64 * field + 64) := by
  intro b hlo hhi
  have hle : (map field).clz.toNat ≤ 64 := by
    have hbv : (map field).clz ≤ 64#64 := BitVec.clz_le
    exact hbv
  have hj : b - 64 * field < 64 := by omega
  have heq : b = 64 * field + (b - 64 * field) := by omega
  rw [heq, bit_field hj, ← BitVec.testBit_toNat]
  apply Nat.testBit_lt_two_pow
  refine lt_of_lt_of_le BitVec.toNat_lt_two_pow_sub_clz ?_
  exact Nat.pow_le_pow_right (by decide) (by omega)

theorem clz_le_field : (map field).clz.toNat ≤ 64 := by
  have hbv : (map field).clz ≤ 64#64 := BitVec.clz_le
  exact hbv

end BitFields
