import Mathlib.Data.BitVec
import Mathlib.Data.Nat.Init

/-!
# Bytes of memory

Memory is a function from addresses to bytes.  The block operations of the C
library and the load and store of a little-endian word are defined on it.
Every writer changes one interval of addresses only, and every reader depends
on one interval only; the frame lemmas below say which.
-/

namespace ByteMemory

abbrev Mem := ℕ → BitVec 8

/-- `memset`. -/
def fill (mem : Mem) (start count : ℕ) (byte : BitVec 8) : Mem :=
  fun a => if start ≤ a ∧ a < start + count then byte else mem a

/-- `memcpy`. -/
def copy (mem : Mem) (dst src count : ℕ) : Mem :=
  fun a => if dst ≤ a ∧ a < dst + count then mem (src + (a - dst)) else mem a

/-- The word of `count` bytes at `start`. -/
def load (mem : Mem) : ℕ → ℕ → ℕ
  | _, 0 => 0
  | start, count + 1 => (mem start).toNat + 256 * load mem (start + 1) count

/-- Store the low `count` bytes of `value` at `start`. -/
def store (mem : Mem) (start count value : ℕ) : Mem :=
  fun a =>
    if start ≤ a ∧ a < start + count then
      BitVec.ofNat 8 (value / 256 ^ (a - start))
    else mem a

/-- The two memories have the same bytes from `lo` up to `hi`. -/
def SameOn (lo hi : ℕ) (mem mem' : Mem) : Prop :=
  ∀ a, lo ≤ a → a < hi → mem' a = mem a

/-- The two memories differ from `lo` up to `hi` only. -/
def ChangesOnly (lo hi : ℕ) (mem mem' : Mem) : Prop :=
  ∀ a, a < lo ∨ hi ≤ a → mem' a = mem a

/-- All bytes from `lo` up to `hi` are `byte`. -/
def AllBytes (mem : Mem) (lo hi : ℕ) (byte : BitVec 8) : Prop :=
  ∀ a, lo ≤ a → a < hi → mem a = byte

variable {mem mem' mem'' : Mem} {lo hi lo' hi' start count value src : ℕ}
variable {byte : BitVec 8}

/-! ## Frames -/

namespace SameOn

theorem refl (lo hi : ℕ) (mem : Mem) : SameOn lo hi mem mem :=
  fun _ _ _ => rfl

theorem trans (h : SameOn lo hi mem mem') (h' : SameOn lo hi mem' mem'') :
    SameOn lo hi mem mem'' :=
  fun a hlo hhi => (h' a hlo hhi).trans (h a hlo hhi)

theorem symm (h : SameOn lo hi mem mem') : SameOn lo hi mem' mem :=
  fun a hlo hhi => (h a hlo hhi).symm

theorem mono (h : SameOn lo hi mem mem') (hlo : lo ≤ lo') (hhi : hi' ≤ hi) :
    SameOn lo' hi' mem mem' :=
  fun a ha ha' => h a (hlo.trans ha) (ha'.trans_le hhi)

theorem allBytes (h : SameOn lo hi mem mem') (hbytes : AllBytes mem lo hi byte) :
    AllBytes mem' lo hi byte :=
  fun a hlo hhi => (h a hlo hhi).trans (hbytes a hlo hhi)

end SameOn

namespace ChangesOnly

theorem refl (lo hi : ℕ) (mem : Mem) : ChangesOnly lo hi mem mem :=
  fun _ _ => rfl

theorem trans (h : ChangesOnly lo hi mem mem')
    (h' : ChangesOnly lo hi mem' mem'') : ChangesOnly lo hi mem mem'' :=
  fun a ha => (h' a ha).trans (h a ha)

theorem mono (h : ChangesOnly lo hi mem mem') (hlo : lo' ≤ lo)
    (hhi : hi ≤ hi') : ChangesOnly lo' hi' mem mem' :=
  fun a ha => h a (by omega)

theorem sameOn (h : ChangesOnly lo hi mem mem') (hdisj : hi' ≤ lo ∨ hi ≤ lo') :
    SameOn lo' hi' mem mem' :=
  fun a ha ha' => h a (by omega)

end ChangesOnly

theorem AllBytes.mono (h : AllBytes mem lo hi byte) (hlo : lo ≤ lo')
    (hhi : hi' ≤ hi) : AllBytes mem lo' hi' byte :=
  fun a ha ha' => h a (hlo.trans ha) (ha'.trans_le hhi)

theorem AllBytes.append {mid : ℕ} (h : AllBytes mem lo mid byte)
    (h' : AllBytes mem mid hi byte) : AllBytes mem lo hi byte := by
  intro a hlo hhi
  by_cases ha : a < mid
  · exact h a hlo ha
  · exact h' a (not_lt.mp ha) hhi

theorem fill_changesOnly :
    ChangesOnly start (start + count) mem (fill mem start count byte) :=
  fun _ _ => if_neg (by omega)

theorem fill_allBytes :
    AllBytes (fill mem start count byte) start (start + count) byte :=
  fun _ hlo hhi => if_pos ⟨hlo, hhi⟩

theorem copy_changesOnly :
    ChangesOnly start (start + count) mem (copy mem start src count) :=
  fun _ _ => if_neg (by omega)

theorem copy_allBytes (h : AllBytes mem src (src + count) byte) :
    AllBytes (copy mem start src count) start (start + count) byte := by
  intro a hlo hhi
  unfold copy
  rw [if_pos ⟨hlo, hhi⟩]
  exact h _ (by omega) (by omega)

theorem store_changesOnly :
    ChangesOnly start (start + count) mem (store mem start count value) :=
  fun _ _ => if_neg (by omega)

/-! ## Words -/

theorem load_congr (h : SameOn start (start + count) mem mem') :
    load mem' start count = load mem start count := by
  induction count generalizing start with
  | zero => rfl
  | succ count ih =>
      unfold load
      rw [h start le_rfl (by omega), ih (h.mono (by omega) (by omega))]

theorem store_succ_eq :
    SameOn (start + 1) (start + 1 + count)
      (store mem (start + 1) count (value / 256))
      (store mem start (count + 1) value) := by
  intro a hlo hhi
  unfold store
  rw [if_pos (by omega), if_pos (by omega), Nat.div_div_eq_div_mul,
    ← Nat.pow_succ']
  congr 3
  omega

theorem load_store :
    load (store mem start count value) start count = value % 256 ^ count := by
  induction count generalizing start value with
  | zero => rw [pow_zero, Nat.mod_one]; rfl
  | succ count ih =>
      have hhead : (store mem start (count + 1) value start).toNat =
          value % 256 := by
        unfold store
        rw [if_pos (by omega), Nat.sub_self, pow_zero, Nat.div_one,
          BitVec.toNat_ofNat]
      unfold load
      rw [hhead, load_congr store_succ_eq, ih, pow_succ', Nat.mod_mul]

theorem store_zero_allBytes :
    AllBytes (store mem start count 0) start (start + count) 0 := by
  intro a hlo hhi
  unfold store
  rw [if_pos ⟨hlo, hhi⟩, Nat.zero_div]
  rfl

end ByteMemory
