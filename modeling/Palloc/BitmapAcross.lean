import Palloc.Bitmap

/-!
# Operations on a given range

The masks of a range lie end to end, so that an operation that handles them
one by one handles exactly the bits of the range.
-/

namespace Palloc

open BitFields

/-- The masks cover the bits from `lo` to `hi`, one after another. -/
inductive MaskRun : List (ℕ × BitVec 64) → ℕ → ℕ → Prop
  | nil (lo : ℕ) : MaskRun [] lo lo
  | cons {field count start hi : ℕ} {masks : List (ℕ × BitVec 64)}
      (hfit : start + count ≤ 64)
      (hrest : MaskRun masks (64 * field + start + count) hi) :
      MaskRun ((field, ones count start) :: masks) (64 * field + start) hi

variable {masks masks' : List (ℕ × BitVec 64)} {lo mid hi : ℕ}
variable {bitmap bitmap' : Fields} {count bitmapIdx : ℕ}

theorem MaskRun.le (hrun : MaskRun masks lo hi) : lo ≤ hi := by
  induction hrun with
  | nil lo => exact le_rfl
  | cons hfit hrest ih => omega

theorem MaskRun.append (hleft : MaskRun masks lo mid)
    (hright : MaskRun masks' mid hi) : MaskRun (masks ++ masks') lo hi := by
  induction hleft with
  | nil lo => exact hright
  | cons hfit hrest ih => exact .cons hfit (ih hright)

theorem MaskRun.single (field : ℕ) {start lo hi : ℕ}
    (hfit : start + count ≤ 64) (hlo : 64 * field + start = lo)
    (hhi : lo + count = hi) : MaskRun [(field, ones count start)] lo hi := by
  subst hlo hhi
  exact .cons hfit (.nil _)

theorem MaskRun.full (field midCount : ℕ) :
    MaskRun ((List.range midCount).map fun i =>
        (field + i, BitVec.allOnes 64))
      (64 * field) (64 * (field + midCount)) := by
  induction midCount with
  | zero => exact .nil _
  | succ midCount ih =>
      rw [List.range_succ, List.map_append]
      apply ih.append
      have hone : MaskRun [(field + midCount, ones 64 0)]
          (64 * (field + midCount)) (64 * (field + (midCount + 1))) :=
        .single (field + midCount) le_rfl (by omega) (by omega)
      exact hone

/-- `pa_bitmap_mask_across` covers exactly the range. -/
theorem acrossMasks_run :
    MaskRun (acrossMasks count bitmapIdx) bitmapIdx (bitmapIdx + count) := by
  unfold acrossMasks
  dsimp only
  split
  · rename_i hfit
    exact .single _ hfit (by omega) rfl
  · rename_i hcross
    generalize hrest : count - (64 - bitmapIdx % 64) = rest
    have hpre : MaskRun
        [(bitmapIdx / 64, ones (64 - bitmapIdx % 64) (bitmapIdx % 64))]
        bitmapIdx (64 * (bitmapIdx / 64 + 1)) :=
      .single _ (by omega) (by omega) (by omega)
    have hmid := MaskRun.full (bitmapIdx / 64 + 1) (rest / 64)
    have hfront := hpre.append hmid
    split
    · rename_i hpost
      have hend : 64 * (bitmapIdx / 64 + 1 + rest / 64) =
          bitmapIdx + count := by omega
      rw [List.append_nil, ← hend]
      exact hfront
    · have hpost : MaskRun
          [(bitmapIdx / 64 + 1 + rest / 64, ones (rest % 64) 0)]
          (64 * (bitmapIdx / 64 + 1 + rest / 64)) (bitmapIdx + count) :=
        .single _ (by omega) (by omega) (by omega)
      exact hfront.append hpost

end Palloc
