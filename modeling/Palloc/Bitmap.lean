import Palloc.BitFields

/-!
# Bitmaps

The operations of `bitmap.c` with nobody else at work.  A bitmap is an array
of 64-bit fields; a bitmap index is the number of a bit in it.
-/

namespace Palloc

open BitFields

/-! ## Inside one field -/

/-- How far the scan moves up when the bits `mapm` are in the way. -/
def scanShift (fastBitscan : Bool) (count : ℕ) (mapm : BitVec 64)
    (bitidx : ℕ) : ℕ :=
  if fastBitscan then
    if count = 1 then 1 else 64 - mapm.clz.toNat - bitidx
  else 1

/-- The loop of `_pa_bitmap_try_find_claim_field` on the content `field` of
the field, of which `map` was read: the claimed bit and the new content.
`none` if the fuel runs out, and for a shift that C leaves undefined. -/
def scanLoop (fastBitscan : Bool) (field : BitVec 64) (count : ℕ) :
    (fuel : ℕ) → (map : BitVec 64) → (bitidx : ℕ) → (m : BitVec 64) →
    Option (Option (ℕ × BitVec 64))
  | 0, _, _, _ => none
  | fuel + 1, map, bitidx, m =>
      if bitidx ≤ 64 - count then
        let mapm := map &&& m
        if mapm = 0 then
          let newmap := map ||| m
          -- the compare and swap
          if field = map then some (some (bitidx, newmap))
          else scanLoop fastBitscan field count fuel field bitidx m
        else
          let shift := scanShift fastBitscan count mapm bitidx
          if shift < 64 then
            scanLoop fastBitscan field count fuel map (bitidx + shift)
              (m <<< shift)
          else none
      else some none

/-- `_pa_bitmap_try_find_claim_field`. -/
def tryFindClaimFieldLoop (fastBitscan : Bool) (fuel : ℕ) (bitmap : Fields)
    (idx count : ℕ) : Option (Option ℕ × Fields) :=
  let map := bitmap idx
  if map = BitVec.allOnes 64 then some (none, bitmap)
  else
    let mask := ones count 0
    let bitidx := if fastBitscan then (~~~map).ctz.toNat else 0
    match scanLoop fastBitscan map count fuel map bitidx (mask <<< bitidx) with
    | none => none
    | some none => some (none, bitmap)
    | some (some (bitidx, newmap)) =>
        some (some (64 * idx + bitidx), Function.update bitmap idx newmap)

/-- Where the loop next comes to its compare and swap, with the bit scans of
the processor, when it has read `map`. -/
def scanField (map : BitVec 64) (count bitidx : ℕ) : Option ℕ :=
  ((scanLoop true map count 65 map bitidx (ones count 0 <<< bitidx)).getD
    none).map Prod.fst

/-- Where `_pa_bitmap_try_find_claim_field` first tries to claim. -/
def findInField (map : BitVec 64) (count : ℕ) : Option ℕ :=
  if map = BitVec.allOnes 64 then none
  else scanField map count (~~~map).ctz.toNat

def tryFindClaimField (bitmap : Fields) (idx count : ℕ) :
    Option ℕ × Fields :=
  (tryFindClaimFieldLoop true 65 bitmap idx count).getD (none, bitmap)

/-- `_pa_bitmap_claim`; whether all bits were clear before. -/
def bitmapClaim (bitmap : Fields) (count bitmapIdx : ℕ) : Bool × Fields :=
  let mask := ones count (bitmapIdx % 64)
  let prev := bitmap (bitmapIdx / 64)
  (decide (prev &&& mask = 0),
    Function.update bitmap (bitmapIdx / 64) (prev ||| mask))

/-- `_pa_bitmap_unclaim`; whether all bits were set before. -/
def bitmapUnclaim (bitmap : Fields) (count bitmapIdx : ℕ) : Bool × Fields :=
  let mask := ones count (bitmapIdx % 64)
  let prev := bitmap (bitmapIdx / 64)
  (decide (prev &&& mask = mask),
    Function.update bitmap (bitmapIdx / 64) (prev &&& ~~~mask))

/-- `_pa_bitmap_try_claim`. -/
def bitmapTryClaim (bitmap : Fields) (count bitmapIdx : ℕ) : Bool × Fields :=
  let mask := ones count (bitmapIdx % 64)
  let expected := bitmap (bitmapIdx / 64)
  if expected &&& mask ≠ 0 then (false, bitmap)
  else (true, Function.update bitmap (bitmapIdx / 64) (expected ||| mask))

/-! ## Across fields -/

/-- The scan ahead of `pa_bitmap_try_find_claim_field_across` from the field
`field` on, when `found` bits are found: the final field and the number of
bits to claim there. -/
def scanAhead (bitmap : Fields) (count : ℕ) :
    (fuel field found : ℕ) → Option (ℕ × ℕ)
  | 0, _, _ => none
  | fuel + 1, field, found =>
      let maskBits := if found + 64 ≤ count then 64 else count - found
      if bitmap field &&& ones maskBits 0 ≠ 0 then none
      else if found + maskBits < count then
        scanAhead bitmap count fuel (field + 1) (found + maskBits)
      else some (field, maskBits)

/-- Claim the fields from `field` up to the final one; the field that is
reached, and whether all could be claimed. -/
def claimMid (finalField : ℕ) :
    (fuel field : ℕ) → Fields → Bool × ℕ × Fields
  | 0, field, bitmap => (true, field, bitmap)
  | fuel + 1, field, bitmap =>
      if field < finalField then
        if bitmap field = 0 then
          claimMid finalField fuel (field + 1)
            (Function.update bitmap field (BitVec.allOnes 64))
        else (false, field, bitmap)
      else (true, field, bitmap)

/-- The loop of the rollback over the fields below `field`. -/
def rollbackMid (initialField : ℕ) : (field : ℕ) → Fields → Fields
  | 0, bitmap => bitmap
  | field + 1, bitmap =>
      if initialField < field then
        rollbackMid initialField field (Function.update bitmap field 0)
      else bitmap

/-- The rollback after `field` could not be claimed. -/
def rollbackFields (initialField field : ℕ) (initialMask : BitVec 64)
    (bitmap : Fields) : Fields :=
  let bitmap := rollbackMid initialField field bitmap
  if initialField < field then
    Function.update bitmap initialField
      (bitmap initialField &&& ~~~initialMask)
  else bitmap

/-- Claim the range that was found: the `initial` top bits of the initial
field, the fields between and the `finalBits` low bits of the final field. -/
def claimFields (bitmap : Fields) (idx initial finalField finalBits : ℕ) :
    Bool × Fields :=
  let initialMask := ones initial (64 - initial)
  let finalMask := ones finalBits 0
  if bitmap idx &&& initialMask ≠ 0 then
    (false, rollbackFields idx idx initialMask bitmap)
  else
    let bitmap := Function.update bitmap idx (bitmap idx ||| initialMask)
    match claimMid finalField (finalField - idx) (idx + 1) bitmap with
    | (false, field, bitmap) =>
        (false, rollbackFields idx field initialMask bitmap)
    | (true, _, bitmap) =>
        if bitmap finalField &&& finalMask ≠ 0 then
          (false, rollbackFields idx finalField initialMask bitmap)
        else
          (true, Function.update bitmap finalField
            (bitmap finalField ||| finalMask))

/-- `_pa_divide_up`. -/
def divideUp (size divider : ℕ) : ℕ := (size + divider - 1) / divider

/-- `pa_bitmap_try_find_claim_field_across`, with the retries that are left. -/
def tryFindClaimFieldAcross (bitmapFields idx count : ℕ) :
    (retries : ℕ) → Fields → Option ℕ × Fields
  | retries, bitmap =>
      let initial := (bitmap idx).clz.toNat
      if initial = 0 then (none, bitmap)
      else if count ≤ initial then tryFindClaimField bitmap idx count
      else if bitmapFields - idx ≤ divideUp (count - initial) 64 then
        (none, bitmap)
      else
        match scanAhead bitmap count count (idx + 1) initial with
        | none => (none, bitmap)
        | some (finalField, finalBits) =>
            match claimFields bitmap idx initial finalField finalBits with
            | (true, bitmap) => (some (64 * idx + (64 - initial)), bitmap)
            | (false, bitmap) =>
                match retries with
                | 0 => (none, bitmap)
                | retries + 1 =>
                    tryFindClaimFieldAcross bitmapFields idx count retries
                      bitmap

/-- Try the fields one after another, from `idx` on and around the end, for
`left` fields. -/
def visitFields (tryField : ℕ → Fields → Option ℕ × Fields)
    (bitmapFields : ℕ) : (left idx : ℕ) → Fields → Option ℕ × Fields
  | 0, _, bitmap => (none, bitmap)
  | left + 1, idx, bitmap =>
      let idx := if bitmapFields ≤ idx then 0 else idx
      match tryField idx bitmap with
      | (some bitmapIdx, bitmap) => (some bitmapIdx, bitmap)
      | (none, bitmap) =>
          visitFields tryField bitmapFields left (idx + 1) bitmap

/-- `_pa_bitmap_try_find_from_claim`. -/
def tryFindFromClaim (bitmap : Fields)
    (bitmapFields startFieldIdx count : ℕ) : Option ℕ × Fields :=
  visitFields (fun idx bitmap => tryFindClaimField bitmap idx count)
    bitmapFields bitmapFields startFieldIdx bitmap

/-- `_pa_bitmap_try_find_from_claim_across`. -/
def tryFindFromClaimAcross (bitmap : Fields)
    (bitmapFields startFieldIdx count : ℕ) : Option ℕ × Fields :=
  if count ≤ 2 then tryFindFromClaim bitmap bitmapFields startFieldIdx count
  else
    visitFields
      (fun idx => tryFindClaimFieldAcross bitmapFields idx count 3)
      bitmapFields bitmapFields startFieldIdx bitmap

/-! ## Given ranges across fields -/

/-- The fields of a range and the mask in each of them:
`pa_bitmap_mask_across` and the walk of its callers. -/
def acrossMasks (count bitmapIdx : ℕ) : List (ℕ × BitVec 64) :=
  let bitidx := bitmapIdx % 64
  let field := bitmapIdx / 64
  if bitidx + count ≤ 64 then [(field, ones count bitidx)]
  else
    let preBits := 64 - bitidx
    let rest := count - preBits
    let midCount := rest / 64
    let postBits := rest % 64
    (field, ones preBits bitidx) ::
      ((List.range midCount).map fun i => (field + 1 + i, BitVec.allOnes 64)) ++
        if postBits = 0 then []
        else [(field + 1 + midCount, ones postBits 0)]

/-- `pa_bitmap_mask_across`: the number of full fields, and the masks of the
first field, the full fields and the last field. -/
def bitmapMaskAcross (bitmapIdx count : ℕ) :
    ℕ × BitVec 64 × BitVec 64 × BitVec 64 :=
  let bitidx := bitmapIdx % 64
  if bitidx + count ≤ 64 then (0, ones count bitidx, 0, 0)
  else
    let preBits := 64 - bitidx
    let preMask := ones preBits bitidx
    let count := count - preBits
    let midCount := count / 64
    let count := count % 64
    (midCount, preMask, BitVec.allOnes 64,
      if count = 0 then 0 else ones count 0)

def walkMid {σ : Type} (step : ℕ → BitVec 64 → σ → σ) (midMask : BitVec 64) :
    (midCount : ℕ) → (field : ℕ) → σ → σ
  | 0, _, s => s
  | midCount + 1, field, s =>
      walkMid step midMask midCount (field + 1) (step field midMask s)

/-- What the operations do across fields, with `step` on each of them. -/
def walkAcross {σ : Type} (step : ℕ → BitVec 64 → σ → σ)
    (bitmapIdx count : ℕ) (s : σ) : σ :=
  let idx := bitmapIdx / 64
  match bitmapMaskAcross bitmapIdx count with
  | (midCount, preMask, midMask, postMask) =>
      let s := step idx preMask s
      let s := walkMid step midMask midCount (idx + 1) s
      if postMask ≠ 0 then step (idx + 1 + midCount) postMask s else s

/-- `pa_popcount`. -/
def popcount (x : BitVec 64) : ℕ :=
  if x ≤ 1 then x.toNat
  else if x = BitVec.allOnes 64 then 64
  else x.cpop.toNat

/-- `_pa_bitmap_unclaim_across`; whether all bits were set before. -/
def bitmapUnclaimAcross (bitmap : Fields) (count bitmapIdx : ℕ) :
    Bool × Fields :=
  walkAcross
    (fun field mask (allOne, bitmap) =>
      let prev := bitmap field
      (if prev &&& mask ≠ mask then false else allOne,
        Function.update bitmap field (prev &&& ~~~mask)))
    bitmapIdx count (true, bitmap)

/-- What `_pa_bitmap_claim_across` keeps on its way. -/
structure ClaimAcross where
  allZero : Bool
  anyZero : Bool
  oneCount : ℕ
  bitmap : Fields

/-- `_pa_bitmap_claim_across`: it returns `allZero`, and `anyZero` and
`oneCount` through its pointers. -/
def bitmapClaimAcross (bitmap : Fields) (count bitmapIdx : ℕ) : ClaimAcross :=
  walkAcross
    (fun field mask s =>
      let prev := s.bitmap field
      { allZero := if prev &&& mask ≠ 0 then false else s.allZero
        anyZero := if prev &&& mask ≠ mask then true else s.anyZero
        oneCount :=
          if prev &&& mask ≠ 0 then s.oneCount + popcount (prev &&& mask)
          else s.oneCount
        bitmap := Function.update s.bitmap field (prev ||| mask) })
    bitmapIdx count
    { allZero := true, anyZero := false, oneCount := 0, bitmap := bitmap }

/-- What `pa_bitmap_is_claimedx_across` keeps on its way. -/
structure ClaimedxAcross where
  allOnes : Bool
  anyOnes : Bool
  oneCount : ℕ

/-- `pa_bitmap_is_claimedx_across`. -/
def bitmapIsClaimedxAcross (bitmap : Fields) (count bitmapIdx : ℕ) :
    ClaimedxAcross :=
  walkAcross
    (fun field mask s =>
      let prev := bitmap field
      { allOnes := if prev &&& mask ≠ mask then false else s.allOnes
        anyOnes := if prev &&& mask ≠ 0 then true else s.anyOnes
        oneCount :=
          if prev &&& mask ≠ 0 then s.oneCount + popcount (prev &&& mask)
          else s.oneCount })
    bitmapIdx count { allOnes := true, anyOnes := false, oneCount := 0 }

/-- `_pa_bitmap_is_claimed_across`, with the number that it stores. -/
def bitmapIsClaimedAcross (bitmap : Fields) (count bitmapIdx : ℕ) :
    Bool × ℕ :=
  let result := bitmapIsClaimedxAcross bitmap count bitmapIdx
  (result.allOnes, result.oneCount)

/-- `_pa_bitmap_is_any_claimed_across`. -/
def bitmapIsAnyClaimedAcross (bitmap : Fields) (count bitmapIdx : ℕ) : Bool :=
  (bitmapIsClaimedxAcross bitmap count bitmapIdx).anyOnes

end Palloc
