import Mathlib.Algebra.Ring.Nat
import Mathlib.Data.Fin.VecNotation
import Mathlib.Logic.Function.Iterate
import Mathlib.Data.Fintype.Basic
import Mathlib.Tactic.FinCases

/-!
# Key streams in counter mode

A grid of sixteen words is mixed by rounds over its columns and over its
diagonals, and the mixed grid is added to the grid itself.  The key stream
consists of the blocks of one grid for consecutive values of the counter that
stands in the last row.
-/

namespace KeyStream

abbrev Grid := Fin 4 → Fin 4 → BitVec 32

/-! ## The rounds -/

def quarterRound (v : Fin 4 → BitVec 32) : Fin 4 → BitVec 32 :=
  let a₁ := v 0 + v 1
  let d₁ := (v 3 ^^^ a₁).rotateLeft 16
  let c₁ := v 2 + d₁
  let b₁ := (v 1 ^^^ c₁).rotateLeft 12
  let a₂ := a₁ + b₁
  let d₂ := (d₁ ^^^ a₂).rotateLeft 8
  let c₂ := c₁ + d₂
  let b₂ := (b₁ ^^^ c₂).rotateLeft 7
  ![a₂, b₂, c₂, d₂]

def columnRound (m : Grid) : Grid :=
  fun i j => quarterRound (fun k => m k j) i

/-- Row `i` is rotated by `i`, so that the diagonals become columns. -/
def turnDiagonals (m : Grid) : Grid :=
  fun i j => m i (j + i)

def turnBack (m : Grid) : Grid :=
  fun i j => m i (j - i)

def diagonalRound (m : Grid) : Grid :=
  turnBack (columnRound (turnDiagonals m))

def doubleRound (m : Grid) : Grid :=
  diagonalRound (columnRound m)

/-- The block of a grid after `2 * doubles` rounds. -/
def block (doubles : ℕ) (m : Grid) : Grid :=
  fun i j => doubleRound^[doubles] m i j + m i j

/-! ## The counter -/

/-- The counter is in the first three words of the last row, the low word
first. -/
def counter (m : Grid) : BitVec 96 :=
  m 3 2 ++ m 3 1 ++ m 3 0

def setCounter (m : Grid) (c : BitVec 96) : Grid :=
  Function.update m 3
    ![c.extractLsb' 0 32, c.extractLsb' 32 32, c.extractLsb' 64 32, m 3 3]

/-- The first grid of a stream: constants, key, a counter that is zero, and
the two words of the nonce. -/
def keyGrid (constants : Fin 4 → BitVec 32) (key : Fin 8 → BitVec 32)
    (nonce : BitVec 64) : Grid
  | 0 => constants
  | 1 => ![key 0, key 1, key 2, key 3]
  | 2 => ![key 4, key 5, key 6, key 7]
  | 3 => ![0, 0, nonce.extractLsb' 0 32, nonce.extractLsb' 32 32]

/-- The grid `k` blocks later. -/
def advance (m : Grid) (k : ℕ) : Grid :=
  setCounter m (counter m + BitVec.ofNat 96 k)

@[simp] theorem setCounter_of_ne (m : Grid) (c : BitVec 96) {i : Fin 4}
    (hi : i ≠ 3) :
    setCounter m c i = m i := by
  simp [setCounter, hi]

theorem setCounter_row (m : Grid) (c : BitVec 96) :
    setCounter m c 3 =
      ![c.extractLsb' 0 32, c.extractLsb' 32 32, c.extractLsb' 64 32,
        m 3 3] := by
  simp [setCounter]

theorem words_of_counter (c : BitVec 96) :
    c.extractLsb' 64 32 ++ c.extractLsb' 32 32 ++ c.extractLsb' 0 32 = c := by
  ext i hi
  simp only [BitVec.getElem_append, BitVec.getElem_extractLsb']
  split
  · simp [BitVec.getLsbD_eq_getElem hi]
  · split
    · rw [← BitVec.getLsbD_eq_getElem hi]
      congr 1
      omega
    · rw [← BitVec.getLsbD_eq_getElem hi]
      congr 1
      omega

@[simp] theorem counter_setCounter (m : Grid) (c : BitVec 96) :
    counter (setCounter m c) = c := by
  simp only [counter, setCounter_row]
  exact words_of_counter c

@[simp] theorem setCounter_setCounter (m : Grid) (c d : BitVec 96) :
    setCounter (setCounter m c) d = setCounter m d := by
  simp [setCounter]

theorem extractLsb'_low (a b c : BitVec 32) :
    (a ++ b ++ c).extractLsb' 0 32 = c := by
  ext i hi
  rw [BitVec.getElem_extractLsb', BitVec.getLsbD_append, Nat.zero_add]
  simp [hi]

theorem extractLsb'_middle (a b c : BitVec 32) :
    (a ++ b ++ c).extractLsb' 32 32 = b := by
  ext i hi
  rw [BitVec.getElem_extractLsb', BitVec.getLsbD_append,
    BitVec.getLsbD_append]
  simp [hi]

theorem extractLsb'_high (a b c : BitVec 32) :
    (a ++ b ++ c).extractLsb' 64 32 = a := by
  ext i hi
  have hlow : ¬ 64 + i < 32 := by omega
  have hmiddle : ¬ 64 + i - 32 < 32 := by omega
  have hbit : 64 + i - 32 - 32 = i := by omega
  rw [BitVec.getElem_extractLsb', BitVec.getLsbD_append,
    BitVec.getLsbD_append]
  simp [hlow, hmiddle, hbit, hi]

@[simp] theorem setCounter_counter (m : Grid) :
    setCounter m (counter m) = m := by
  funext i
  by_cases hi : i = 3
  · subst hi
    funext j
    fin_cases j <;>
      simp [setCounter_row, counter, extractLsb'_low, extractLsb'_middle,
        extractLsb'_high]
  · simp [hi]

@[simp] theorem advance_zero (m : Grid) : advance m 0 = m := by
  simp [advance]

theorem advance_advance (m : Grid) (k l : ℕ) :
    advance (advance m k) l = advance m (k + l) := by
  simp [advance, BitVec.ofNat_add, BitVec.add_assoc]

theorem advance_injective (m : Grid) {k l : ℕ} (hk : k < 2 ^ 96)
    (hl : l < 2 ^ 96) (heq : advance m k = advance m l) : k = l := by
  have hcounter := congrArg counter heq
  simp only [advance, counter_setCounter, BitVec.add_right_inj] at hcounter
  have hnat := congrArg BitVec.toNat hcounter
  rwa [BitVec.toNat_ofNat, BitVec.toNat_ofNat, Nat.mod_eq_of_lt hk,
    Nat.mod_eq_of_lt hl] at hnat

/-! ## One block -/

theorem toNat_words (a b c : BitVec 32) :
    (a ++ b ++ c).toNat = (a.toNat * 2 ^ 32 + b.toNat) * 2 ^ 32 + c.toNat := by
  rw [BitVec.toNat_append, BitVec.toNat_append,
    ← Nat.shiftLeft_add_eq_or_of_lt b.isLt,
    ← Nat.shiftLeft_add_eq_or_of_lt c.isLt, Nat.shiftLeft_eq,
    Nat.shiftLeft_eq]

theorem toNat_add_one (a : BitVec 32) :
    (a + 1).toNat = (a.toNat + 1) % 2 ^ 32 := rfl

theorem add_one_eq_zero_iff (a : BitVec 32) :
    a + 1 = 0 ↔ a.toNat = 2 ^ 32 - 1 := by
  have hlt := a.isLt
  rw [← BitVec.toNat_inj, toNat_add_one]
  change (a.toNat + 1) % 2 ^ 32 = 0 ↔ _
  omega

/-- The carry goes from the low word to the middle one and from there to the
high one. -/
theorem words_add_one (a b c : BitVec 32) :
    (a ++ b ++ c : BitVec 96) + 1 =
      ((if c + 1 = 0 ∧ b + 1 = 0 then a + 1 else a) ++
        (if c + 1 = 0 then b + 1 else b) ++ (c + 1) : BitVec 96) := by
  apply BitVec.eq_of_toNat_eq
  have ha := a.isLt
  have hb := b.isLt
  have hc := c.isLt
  have hsum : ∀ x : BitVec 96, (x + 1).toNat = (x.toNat + 1) % 2 ^ 96 :=
    fun _ => rfl
  rw [hsum, toNat_words, toNat_words, toNat_add_one c]
  simp only [add_one_eq_zero_iff]
  by_cases hlow : c.toNat = 2 ^ 32 - 1
  · by_cases hmiddle : b.toNat = 2 ^ 32 - 1
    · simp only [hlow, hmiddle, and_self, if_true, toNat_add_one]
      omega
    · simp only [hlow, hmiddle, and_false, if_true, if_false, toNat_add_one]
      omega
  · simp only [hlow, false_and, if_false]
    omega

theorem advance_one (m : Grid) :
    advance m 1 =
      Function.update m 3
        ![m 3 0 + 1, if m 3 0 + 1 = 0 then m 3 1 + 1 else m 3 1,
          if m 3 0 + 1 = 0 ∧ m 3 1 + 1 = 0 then m 3 2 + 1 else m 3 2,
          m 3 3] := by
  have hone : BitVec.ofNat 96 1 = 1 := rfl
  rw [advance, counter, hone, words_add_one, setCounter, extractLsb'_low,
    extractLsb'_middle, extractLsb'_high]

/-! ## The stream -/

/-- The word of a grid at a position below sixteen, row after row. -/
def wordAt (m : Grid) (i : ℕ) : BitVec 32 :=
  m (Fin.ofNat 4 (i / 4)) (Fin.ofNat 4 (i % 4))

/-- Word `n` of the key stream: word `n % 16` of block `n / 16`. -/
def streamWord (doubles : ℕ) (m : Grid) (n : ℕ) : BitVec 32 :=
  wordAt (block doubles (advance m (n / 16))) (n % 16)

theorem stream_position_injective (m : Grid) {n l : ℕ}
    (hn : n < 16 * 2 ^ 96) (hl : l < 16 * 2 ^ 96)
    (hgrid : advance m (n / 16) = advance m (l / 16))
    (hpos : n % 16 = l % 16) : n = l := by
  have hdiv : n / 16 = l / 16 :=
    advance_injective m (by omega) (by omega) hgrid
  omega

end KeyStream
