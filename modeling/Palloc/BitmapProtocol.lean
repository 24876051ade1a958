import Palloc.Bitmap
import Palloc.BitOwnership

/-!
# Concurrent calls on a bitmap

The calls that claim and release bits, one atomic access at a time.  What a
call does on its own between two accesses is part of the first one.  A
compare-and-swap may also fail for no reason, as a weak one may, and a call
that releases a range takes it over from the call that claimed it.
-/

namespace Palloc

open BitFields BitOwnership

variable {ι : Type*}

/-- A call of one of the operations.  A range that is released is named by the
call that claimed it. -/
inductive BitmapOp (ι : Type*)
  | tryFindClaimField (idx count : ℕ)
  | tryFindClaimFieldAcross (idx count : ℕ)
  | tryClaim (count bitmapIdx : ℕ)
  | unclaim (target : ι)
  | unclaimAcross (target : ι)

def BitmapOp.request : BitmapOp ι → Option ℕ
  | tryFindClaimField _ count => some count
  | tryFindClaimFieldAcross _ count => some count
  | tryClaim count _ => some count
  | unclaim _ => none
  | unclaimAcross _ => none

def BitmapOp.Valid (bitmapFields : ℕ) : BitmapOp ι → Prop
  | tryFindClaimField idx count => idx < bitmapFields ∧ 0 < count ∧ count ≤ 64
  | tryFindClaimFieldAcross idx count => idx < bitmapFields ∧ 0 < count
  | tryClaim count bitmapIdx =>
      bitmapIdx / 64 < bitmapFields ∧ 0 < count ∧
        bitmapIdx % 64 + count ≤ 64
  | unclaim _ => True
  | unclaimAcross _ => True

/-- The arguments of `pa_bitmap_try_find_claim_field_across`. -/
structure AcrossCall where
  idx : ℕ
  count : ℕ
  retries : ℕ
  deriving Repr, DecidableEq

/-- The range that the scan ahead has found: the `initial` top bits of the
initial field, the fields between, and the `finalBits` low bits of the final
field. -/
structure AcrossRange extends AcrossCall where
  initial : ℕ
  finalField : ℕ
  finalBits : ℕ
  deriving Repr, DecidableEq

namespace AcrossRange

def initialMask (range : AcrossRange) : BitVec 64 :=
  ones range.initial (64 - range.initial)

def finalMask (range : AcrossRange) : BitVec 64 := ones range.finalBits 0

def start (range : AcrossRange) : ℕ := 64 * range.idx + (64 - range.initial)

end AcrossRange

inductive BitmapPc
  | idle
  | findLoad (idx count : ℕ)
  | findCas (idx count : ℕ) (map : BitVec 64) (bitidx : ℕ)
  | acrossLoad (call : AcrossCall)
  | acrossScan (call : AcrossCall) (initial field found : ℕ)
  | initialLoad (range : AcrossRange)
  | initialCas (range : AcrossRange) (map : BitVec 64)
  | middleCas (range : AcrossRange) (field : ℕ)
  | finalLoad (range : AcrossRange)
  | finalCas (range : AcrossRange) (map : BitVec 64)
  | rollbackStore (range : AcrossRange) (field : ℕ)
  | rollbackLoad (range : AcrossRange)
  | rollbackCas (range : AcrossRange) (map : BitVec 64)
  | claimLoad (count bitmapIdx : ℕ)
  | claimCas (count bitmapIdx : ℕ) (expected : BitVec 64)
  /-- An unclaim with the masks that it has not cleared yet. -/
  | clear (masks : List (ℕ × BitVec 64))
  /-- The call has returned a range. -/
  | claimed (bitmapIdx count : ℕ)
  | failed
  /-- The range that the call had returned is being released. -/
  | released
  | unclaimed
  deriving Repr, DecidableEq

namespace BitmapPc

/-- The scan for `count` clear bits in `map`. -/
def scan (idx count : ℕ) (map : BitVec 64) : Option ℕ → BitmapPc
  | none => failed
  | some bitidx => findCas idx count map bitidx

def retry (call : AcrossCall) : BitmapPc :=
  if call.retries ≤ 2 then
    acrossLoad { call with retries := call.retries + 1 }
  else failed

/-- The rollback after `field` could not be claimed. -/
def rollback (range : AcrossRange) (field : ℕ) : BitmapPc :=
  if range.idx < field - 1 then rollbackStore range (field - 1)
  else if range.idx = field - 1 ∧ 0 < field then rollbackLoad range
  else retry range.toAcrossCall

/-- The claim of the initial field, which holds `map`. -/
def tryInitial (range : AcrossRange) (map : BitVec 64) : BitmapPc :=
  if map &&& range.initialMask ≠ 0 then rollback range range.idx
  else initialCas range map

/-- The claim of `field`, when all fields before it are claimed. -/
def claimNext (range : AcrossRange) (field : ℕ) : BitmapPc :=
  if field < range.finalField then middleCas range field
  else finalLoad range

/-- The claim of the final field, which holds `map`. -/
def tryFinal (range : AcrossRange) (map : BitVec 64) : BitmapPc :=
  if map &&& range.finalMask ≠ 0 then rollback range range.finalField
  else finalCas range map

/-- The start of `pa_bitmap_try_find_claim_field_across`, when the field holds
`map`. -/
def tryAcross (bitmapFields : ℕ) (call : AcrossCall) (map : BitVec 64) :
    BitmapPc :=
  let initial := map.clz.toNat
  if initial = 0 then failed
  else if call.count ≤ initial then findLoad call.idx call.count
  else if bitmapFields - call.idx ≤ divideUp (call.count - initial) 64 then
    failed
  else acrossScan call initial (call.idx + 1) initial

/-- One turn of the scan ahead, when `field` holds `map`. -/
def scanNext (call : AcrossCall) (initial field found : ℕ)
    (map : BitVec 64) : BitmapPc :=
  let maskBits := if found + 64 ≤ call.count then 64 else call.count - found
  if map &&& ones maskBits 0 ≠ 0 then failed
  else if found + maskBits < call.count then
    acrossScan call initial (field + 1) (found + maskBits)
  else initialLoad ⟨call, initial, field, maskBits⟩

/-- The loop of `_pa_bitmap_try_claim`. -/
def tryBits (count bitmapIdx : ℕ) (expected : BitVec 64) : BitmapPc :=
  if expected &&& ones count (bitmapIdx % 64) ≠ 0 then failed
  else claimCas count bitmapIdx expected

/-- A compare-and-swap of `field`: where the call goes on, and the bitmap.
When it fails it hands back what the field holds. -/
def cas (bitmap : Fields) (spurious : Bool) (field : ℕ)
    (expected newmap : BitVec 64) (success : BitmapPc)
    (failure : BitVec 64 → BitmapPc) : BitmapPc × Fields :=
  if bitmap field = expected ∧ spurious = false then
    (success, Function.update bitmap field newmap)
  else (failure (bitmap field), bitmap)

def access (bitmapFields : ℕ) (bitmap : Fields) (spurious : Bool) :
    BitmapPc → BitmapPc × Fields
  | findLoad idx count =>
      (scan idx count (bitmap idx) (findInField (bitmap idx) count), bitmap)
  | findCas idx count map bitidx =>
      cas bitmap spurious idx map (map ||| ones count 0 <<< bitidx)
        (claimed (64 * idx + bitidx) count)
        fun map => scan idx count map (scanField map count bitidx)
  | acrossLoad call =>
      (tryAcross bitmapFields call (bitmap call.idx), bitmap)
  | acrossScan call initial field found =>
      (scanNext call initial field found (bitmap field), bitmap)
  | initialLoad range => (tryInitial range (bitmap range.idx), bitmap)
  | initialCas range map =>
      cas bitmap spurious range.idx map (map ||| range.initialMask)
        (claimNext range (range.idx + 1)) (tryInitial range)
  | middleCas range field =>
      cas bitmap spurious field 0 (BitVec.allOnes 64)
        (claimNext range (field + 1)) fun _ => rollback range field
  | finalLoad range => (tryFinal range (bitmap range.finalField), bitmap)
  | finalCas range map =>
      cas bitmap spurious range.finalField map (map ||| range.finalMask)
        (claimed range.start range.count) (tryFinal range)
  | rollbackStore range field =>
      (rollback range field, Function.update bitmap field 0)
  | rollbackLoad range => (rollbackCas range (bitmap range.idx), bitmap)
  | rollbackCas range map =>
      cas bitmap spurious range.idx map (map &&& ~~~range.initialMask)
        (retry range.toAcrossCall) (rollbackCas range)
  | claimLoad count bitmapIdx =>
      (tryBits count bitmapIdx (bitmap (bitmapIdx / 64)), bitmap)
  | claimCas count bitmapIdx expected =>
      cas bitmap spurious (bitmapIdx / 64) expected
        (expected ||| ones count (bitmapIdx % 64))
        (claimed bitmapIdx count) (tryBits count bitmapIdx)
  | clear [] => (unclaimed, bitmap)
  | clear ((field, mask) :: masks) =>
      (clear masks,
        Function.update bitmap field (bitmap field &&& ~~~mask))
  | pc => (pc, bitmap)

/-- The bits from `lo` to `hi`. -/
def span (lo hi : ℕ) : ℕ → Bool := fun b => decide (lo ≤ b ∧ b < hi)

/-- The bits that a call has claimed and not released. -/
def held : BitmapPc → ℕ → Bool
  | middleCas range field => span range.start (64 * field)
  | finalLoad range => span range.start (64 * range.finalField)
  | finalCas range _ => span range.start (64 * range.finalField)
  | rollbackStore range field => span range.start (64 * (field + 1))
  | rollbackLoad range => span range.start (64 * (range.idx + 1))
  | rollbackCas range _ => span range.start (64 * (range.idx + 1))
  | clear masks => fun b =>
      masks.any fun entry =>
        decide (b / 64 = entry.1) && entry.2.getLsbD (b % 64)
  | claimed bitmapIdx count => span bitmapIdx (bitmapIdx + count)
  | _ => fun _ => false

end BitmapPc

def BitmapOp.entry : BitmapOp ι → Option BitmapPc
  | tryFindClaimField idx count => some (.findLoad idx count)
  | tryFindClaimFieldAcross idx count => some (.acrossLoad ⟨idx, count, 0⟩)
  | tryClaim count bitmapIdx => some (.claimLoad count bitmapIdx)
  | unclaim _ => none
  | unclaimAcross _ => none

/-- The bitmap and the calls.  `sets` and `clears` count how often a call
changed a bit to one and to zero. -/
structure BitmapState (ι : Type*) where
  bitmap : Fields
  pc : ι → BitmapPc
  sets : ι → ℕ → ℕ
  clears : ι → ℕ → ℕ

def BitmapState.initial (bitmap : Fields) : BitmapState ι where
  bitmap := bitmap
  pc := fun _ => .idle
  sets := fun _ _ => 0
  clears := fun _ _ => 0

variable [DecidableEq ι]

/-- Call `i` goes on at `pc` and leaves `bitmap`. -/
def BitmapState.goto (st : BitmapState ι) (i : ι) (pc : BitmapPc)
    (bitmap : Fields) : BitmapState ι where
  bitmap := bitmap
  pc := Function.update st.pc i pc
  sets := Function.update st.sets i
    (countSets (bit st.bitmap) (bit bitmap) (st.sets i))
  clears := Function.update st.clears i
    (countClears (bit st.bitmap) (bit bitmap) (st.clears i))

/-- Call `i` takes over the range of `target` and clears `masks`. -/
def BitmapState.release (st : BitmapState ι) (target i : ι)
    (masks : List (ℕ × BitVec 64)) : BitmapState ι :=
  { st with
    pc := Function.update (Function.update st.pc target .released) i
      (.clear masks) }

/-- One step of call `i`. -/
inductive BitmapStep (bitmapFields : ℕ) (op : ι → BitmapOp ι)
    (st : BitmapState ι) (i : ι) : BitmapState ι → Prop
  | enter {pc : BitmapPc} (hidle : st.pc i = .idle)
      (hentry : (op i).entry = some pc) :
      BitmapStep bitmapFields op st i (st.goto i pc st.bitmap)
  | access (spurious : Bool) :
      BitmapStep bitmapFields op st i
        (st.goto i
          ((st.pc i).access bitmapFields st.bitmap spurious).1
          ((st.pc i).access bitmapFields st.bitmap spurious).2)
  | unclaim {target : ι} {bitmapIdx count : ℕ} (hidle : st.pc i = .idle)
      (hop : op i = .unclaim target)
      (hclaimed : st.pc target = .claimed bitmapIdx count)
      (hfit : bitmapIdx % 64 + count ≤ 64) :
      BitmapStep bitmapFields op st i
        (st.release target i
          [(bitmapIdx / 64, ones count (bitmapIdx % 64))])
  | unclaimAcross {target : ι} {bitmapIdx count : ℕ}
      (hidle : st.pc i = .idle) (hop : op i = .unclaimAcross target)
      (hclaimed : st.pc target = .claimed bitmapIdx count) :
      BitmapStep bitmapFields op st i
        (st.release target i (acrossMasks count bitmapIdx))

inductive BitmapReachable (bitmapFields : ℕ) (op : ι → BitmapOp ι) :
    BitmapState ι → Prop
  | initial (bitmap : Fields) :
      BitmapReachable bitmapFields op (.initial bitmap)
  | step {st st' : BitmapState ι} {i : ι}
      (hreach : BitmapReachable bitmapFields op st)
      (hstep : BitmapStep bitmapFields op st i st') :
      BitmapReachable bitmapFields op st'

end Palloc
