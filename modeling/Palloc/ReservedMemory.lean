import Palloc.MachineWord

/-!
# Memory that is reserved first and committed later

The vector arenas take one region from the operating system and commit it
grain by grain.  The page size is a power of two and at least the widest
vector alignment; a reservation is aligned to pages only, whatever alignment
is asked for.
-/

namespace Palloc

open MachineWord

/-- A `size_t`. -/
abbrev Word := Fin wordSize

/-- What the arenas use of the operating system.  `alloc size tryAlignment` is
`_pa_prim_alloc`: a successful call gives a region of whole address space, so
it does not wrap around, and reserving nothing fails. -/
structure PrimOs where
  pageShift : ℕ
  virtualReserve : Bool
  alloc : ℕ → ℕ → Option ℕ
  le_pageShift : 6 ≤ pageShift
  pageShift_lt : pageShift < 64
  alloc_spec : ∀ size tryAlignment start,
    alloc size tryAlignment = some start →
      0 < size ∧ 0 < start ∧ 2 ^ pageShift ∣ start ∧ start + size ≤ wordSize

/-- `_pa_os_page_size`. -/
def PrimOs.pageSize (os : PrimOs) : ℕ := 2 ^ os.pageShift

theorem PrimOs.pageSize_pos (os : PrimOs) : 0 < os.pageSize :=
  Nat.two_pow_pos os.pageShift

theorem PrimOs.dvd_pageSize (os : PrimOs) : 64 ∣ os.pageSize :=
  pow_dvd_pow 2 os.le_pageShift

theorem PrimOs.pageSize_le (os : PrimOs) : os.pageSize ≤ 2 ^ 63 :=
  Nat.pow_le_pow_right (by decide) (Nat.le_of_lt_succ os.pageShift_lt)

def PrimOs.commitGrain (os : PrimOs) : ℕ :=
  let grain := 2 * 1024 * 1024
  let grain := if grain < os.pageSize then os.pageSize else grain
  wordAlignUp grain os.pageSize

theorem PrimOs.commitGrain_spec (os : PrimOs) :
    0 < os.commitGrain ∧ os.commitGrain < wordSize := by
  have hpage := os.pageSize_pos
  have hle := os.pageSize_le
  constructor
  · unfold PrimOs.commitGrain
    simp only
    rw [wordAlignUp_of_lt]
    · refine lt_of_lt_of_le ?_ (le_exactAlignUp hpage)
      split <;> omega
    · unfold wordSize
      split <;> omega
  · exact wordAlignUp_lt_wordSize

/-- Pages of 4 KiB, and every reservation of at most 1 TiB starts at 4096. -/
def pageOs : PrimOs where
  pageShift := 12
  virtualReserve := true
  alloc size _ := if 0 < size ∧ size ≤ 2 ^ 40 then some 4096 else none
  le_pageShift := by decide
  pageShift_lt := by decide
  alloc_spec := by
    intro size tryAlignment start halloc
    have hword : wordSize = 2 ^ 64 := rfl
    split at halloc
    · injection halloc with halloc
      subst halloc
      refine ⟨by omega, by decide, by decide, by omega⟩
    · cases halloc

end Palloc
