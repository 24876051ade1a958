import Palloc.BitmapAcross
import Palloc.BitmapProtocol
import Palloc.BitmapSearch

/-!
# What one access does

Each access keeps what the call knows about its range, and the bits that it
changes are exactly those that the call starts or stops to hold.
-/

namespace Palloc

open BitFields BitOwnership

variable {ι : Type*} {bitmapFields : ℕ} {request : Option ℕ}
variable {bitmap bitmap' : Fields} {call : AcrossCall} {range : AcrossRange}
variable {map : BitVec 64} {lo mid hi field count : ℕ}

/-! ## What a call knows -/

structure AcrossCall.Wf (bitmapFields : ℕ) (request : Option ℕ)
    (call : AcrossCall) : Prop where
  request_eq : request = some call.count
  idx_lt : call.idx < bitmapFields
  count_pos : 0 < call.count

structure AcrossRange.Wf (bitmapFields : ℕ) (request : Option ℕ)
    (range : AcrossRange) : Prop where
  call : range.toAcrossCall.Wf bitmapFields request
  initial_pos : 0 < range.initial
  initial_le : range.initial ≤ 64
  idx_lt : range.idx < range.finalField
  finalBits_le : range.finalBits ≤ 64
  end_eq : range.start + range.count = 64 * range.finalField + range.finalBits
  end_le : range.start + range.count ≤ 64 * bitmapFields

theorem AcrossRange.Wf.start_ge (hwf : range.Wf bitmapFields request) :
    64 * range.idx ≤ range.start ∧ range.start < 64 * (range.idx + 1) := by
  have hpos := hwf.initial_pos
  have hle := hwf.initial_le
  unfold AcrossRange.start
  omega

/-- What is known at each access, for a call that asks for `request` bits. -/
def BitmapPc.Wf (bitmapFields : ℕ) (request : Option ℕ) : BitmapPc → Prop
  | idle => True
  | findLoad idx count =>
      request = some count ∧ idx < bitmapFields ∧ 0 < count ∧ count ≤ 64
  | findCas idx count map bitidx =>
      request = some count ∧ idx < bitmapFields ∧ 0 < count ∧
        bitidx + count ≤ 64 ∧ map &&& ones count bitidx = 0
  | acrossLoad call => call.Wf bitmapFields request
  | acrossScan call initial field found =>
      call.Wf bitmapFields request ∧ 0 < initial ∧ initial ≤ 64 ∧
        call.idx < field ∧ found = initial + 64 * (field - (call.idx + 1)) ∧
        found < call.count ∧
        64 * (call.idx + 1) + call.count ≤ 64 * bitmapFields + initial
  | initialLoad range => range.Wf bitmapFields request
  | initialCas range map =>
      range.Wf bitmapFields request ∧ map &&& range.initialMask = 0
  | middleCas range field =>
      range.Wf bitmapFields request ∧ range.idx < field ∧
        field < range.finalField
  | finalLoad range => range.Wf bitmapFields request
  | finalCas range map =>
      range.Wf bitmapFields request ∧ map &&& range.finalMask = 0
  | rollbackStore range field =>
      range.Wf bitmapFields request ∧ range.idx < field
  | rollbackLoad range => range.Wf bitmapFields request
  | rollbackCas range _ => range.Wf bitmapFields request
  | claimLoad count bitmapIdx =>
      request = some count ∧ bitmapIdx / 64 < bitmapFields ∧ 0 < count ∧
        bitmapIdx % 64 + count ≤ 64
  | claimCas count bitmapIdx expected =>
      request = some count ∧ bitmapIdx / 64 < bitmapFields ∧ 0 < count ∧
        bitmapIdx % 64 + count ≤ 64 ∧
        expected &&& ones count (bitmapIdx % 64) = 0
  | clear masks => request = none ∧ ∃ lo hi, MaskRun masks lo hi
  | claimed bitmapIdx count =>
      request = some count ∧ 0 < count ∧
        bitmapIdx + count ≤ 64 * bitmapFields
  | failed => request ≠ none
  | released => request ≠ none
  | unclaimed => request = none

/-- The call goes on at `pc`, which is sound and holds the bits `h`. -/
def BitmapPc.GoesTo (bitmapFields : ℕ) (request : Option ℕ) (h : ℕ → Bool)
    (pc : BitmapPc) : Prop :=
  pc.Wf bitmapFields request ∧ pc.held = h

/-! ## Between two accesses -/

theorem span_empty (hle : hi ≤ lo) :
    BitmapPc.span lo hi = fun _ => false := by
  funext b
  have hout : ¬ (lo ≤ b ∧ b < hi) := by omega
  exact decide_eq_false hout

theorem scan_goesTo (idx : ℕ) (map : BitVec 64) {found : Option ℕ}
    (hrequest : request = some count) (hidx : idx < bitmapFields)
    (hpos : 0 < count)
    (hfound : ∀ bitidx, found = some bitidx →
      bitidx + count ≤ 64 ∧ map &&& ones count bitidx = 0) :
    (BitmapPc.scan idx count map found).GoesTo bitmapFields request
      fun _ => false := by
  cases found with
  | none =>
      refine ⟨?_, rfl⟩
      show request ≠ none
      rw [hrequest]
      exact Option.some_ne_none count
  | some bitidx =>
      rcases hfound bitidx rfl with ⟨hfit, hfree⟩
      exact ⟨⟨hrequest, hidx, hpos, hfit, hfree⟩, rfl⟩

theorem retry_goesTo (hcall : call.Wf bitmapFields request) :
    (BitmapPc.retry call).GoesTo bitmapFields request fun _ => false := by
  unfold BitmapPc.retry
  split
  · exact ⟨⟨hcall.request_eq, hcall.idx_lt, hcall.count_pos⟩, rfl⟩
  · refine ⟨?_, rfl⟩
    show request ≠ none
    rw [hcall.request_eq]
    exact Option.some_ne_none _

theorem rollback_goesTo (hwf : range.Wf bitmapFields request)
    (hle : range.idx ≤ field) :
    (BitmapPc.rollback range field).GoesTo bitmapFields request
      (BitmapPc.span range.start (64 * field)) := by
  unfold BitmapPc.rollback
  by_cases hstore : range.idx < field - 1
  · rw [if_pos hstore]
    refine ⟨⟨hwf, hstore⟩, ?_⟩
    show BitmapPc.span range.start (64 * (field - 1 + 1)) = _
    have hfield : field - 1 + 1 = field := by omega
    rw [hfield]
  rw [if_neg hstore]
  by_cases hload : range.idx = field - 1 ∧ 0 < field
  · rw [if_pos hload]
    refine ⟨hwf, ?_⟩
    show BitmapPc.span range.start (64 * (range.idx + 1)) = _
    have hfield : range.idx + 1 = field := by omega
    rw [hfield]
  · rw [if_neg hload]
    have hstart := hwf.start_ge
    rw [span_empty (by omega)]
    exact retry_goesTo hwf.call

theorem tryInitial_goesTo (map : BitVec 64)
    (hwf : range.Wf bitmapFields request) :
    (BitmapPc.tryInitial range map).GoesTo bitmapFields request
      fun _ => false := by
  unfold BitmapPc.tryInitial
  by_cases hbusy : map &&& range.initialMask ≠ 0
  · rw [if_pos hbusy]
    have hstart := hwf.start_ge
    have hroll := rollback_goesTo hwf le_rfl
    rw [span_empty (by omega)] at hroll
    exact hroll
  · rw [if_neg hbusy]
    exact ⟨⟨hwf, not_not.mp hbusy⟩, rfl⟩

theorem claimNext_goesTo (hwf : range.Wf bitmapFields request)
    (hlt : range.idx < field) (hle : field ≤ range.finalField) :
    (BitmapPc.claimNext range field).GoesTo bitmapFields request
      (BitmapPc.span range.start (64 * field)) := by
  unfold BitmapPc.claimNext
  by_cases hmiddle : field < range.finalField
  · rw [if_pos hmiddle]
    exact ⟨⟨hwf, hlt, hmiddle⟩, rfl⟩
  · rw [if_neg hmiddle]
    have hfield : field = range.finalField := by omega
    rw [hfield]
    exact ⟨hwf, rfl⟩

theorem tryFinal_goesTo (map : BitVec 64)
    (hwf : range.Wf bitmapFields request) :
    (BitmapPc.tryFinal range map).GoesTo bitmapFields request
      (BitmapPc.span range.start (64 * range.finalField)) := by
  unfold BitmapPc.tryFinal
  by_cases hbusy : map &&& range.finalMask ≠ 0
  · rw [if_pos hbusy]
    exact rollback_goesTo hwf hwf.idx_lt.le
  · rw [if_neg hbusy]
    exact ⟨⟨hwf, not_not.mp hbusy⟩, rfl⟩

theorem failed_goesTo (hrequest : request = some count) :
    BitmapPc.failed.GoesTo bitmapFields request fun _ => false := by
  refine ⟨?_, rfl⟩
  show request ≠ none
  rw [hrequest]
  exact Option.some_ne_none count

theorem le_of_divideUp_lt {n fields : ℕ} (hlt : divideUp n 64 < fields) :
    n ≤ 64 * (fields - 1) := by
  unfold divideUp at hlt
  omega

theorem tryAcross_goesTo (field : ℕ) (bitmap : Fields)
    (hcall : call.Wf bitmapFields request) :
    (BitmapPc.tryAcross bitmapFields call (bitmap field)).GoesTo bitmapFields
      request fun _ => false := by
  have hle := @clz_le_field bitmap field
  unfold BitmapPc.tryAcross
  dsimp only
  by_cases hzero : (bitmap field).clz.toNat = 0
  · rw [if_pos hzero]
    exact failed_goesTo hcall.request_eq
  rw [if_neg hzero]
  by_cases hsingle : call.count ≤ (bitmap field).clz.toNat
  · rw [if_pos hsingle]
    exact ⟨⟨hcall.request_eq, hcall.idx_lt, hcall.count_pos,
      hsingle.trans hle⟩, rfl⟩
  rw [if_neg hsingle]
  by_cases hshort : bitmapFields - call.idx ≤
      divideUp (call.count - (bitmap field).clz.toNat) 64
  · rw [if_pos hshort]
    exact failed_goesTo hcall.request_eq
  rw [if_neg hshort]
  have hfits := le_of_divideUp_lt (not_le.mp hshort)
  have hidx := hcall.idx_lt
  refine ⟨⟨hcall, by omega, hle, by omega, ?_, by omega, by omega⟩, rfl⟩
  rw [Nat.sub_self, Nat.mul_zero, Nat.add_zero]

theorem scanNext_goesTo {initial found : ℕ} (map : BitVec 64)
    (hwf : (BitmapPc.acrossScan call initial field found).Wf bitmapFields
      request) :
    (BitmapPc.scanNext call initial field found map).GoesTo bitmapFields
      request fun _ => false := by
  rcases hwf with ⟨hcall, hpos, hle, hfield, hfound, hlt, hfits⟩
  unfold BitmapPc.scanNext
  dsimp only
  generalize hbits : (if found + 64 ≤ call.count then 64
    else call.count - found) = maskBits
  have hmask : (maskBits = 64 ∧ found + 64 ≤ call.count) ∨
      (maskBits = call.count - found ∧ call.count < found + 64) := by
    rw [← hbits]
    split <;> omega
  by_cases hbusy : map &&& ones maskBits 0 ≠ 0
  · rw [if_pos hbusy]
    exact failed_goesTo hcall.request_eq
  rw [if_neg hbusy]
  by_cases hmore : found + maskBits < call.count
  · rw [if_pos hmore]
    exact ⟨⟨hcall, hpos, hle, by omega, by omega, hmore, hfits⟩, rfl⟩
  · rw [if_neg hmore]
    refine ⟨?_, rfl⟩
    have hstart : AcrossRange.start ⟨call, initial, field, maskBits⟩ =
        64 * call.idx + (64 - initial) := rfl
    constructor
    · exact hcall
    · exact hpos
    · exact hle
    · exact hfield
    · dsimp only
      omega
    · rw [hstart]
      dsimp only
      omega
    · rw [hstart]
      dsimp only
      omega

theorem tryBits_goesTo {bitmapIdx : ℕ} (expected : BitVec 64)
    (hwf : (BitmapPc.claimLoad count bitmapIdx).Wf bitmapFields request) :
    (BitmapPc.tryBits count bitmapIdx expected).GoesTo bitmapFields request
      fun _ => false := by
  rcases hwf with ⟨hrequest, hidx, hpos, hfit⟩
  unfold BitmapPc.tryBits
  by_cases hbusy : expected &&& ones count (bitmapIdx % 64) ≠ 0
  · rw [if_pos hbusy]
    exact failed_goesTo hrequest
  · rw [if_neg hbusy]
    exact ⟨⟨hrequest, hidx, hpos, hfit, not_not.mp hbusy⟩, rfl⟩

/-! ## One access -/

variable {pc pc' : BitmapPc} {h' : ℕ → Bool}

theorem span_append (hlo : lo ≤ mid) (hhi : mid ≤ hi) (b : ℕ) :
    BitmapPc.span lo hi b =
      (BitmapPc.span lo mid b || BitmapPc.span mid hi b) := by
  unfold BitmapPc.span
  rw [← Bool.decide_or, decide_eq_decide]
  omega

theorem span_diff (hhi : mid ≤ hi) (b : ℕ) :
    BitmapPc.span lo mid b =
      (BitmapPc.span lo hi b && !BitmapPc.span mid hi b) := by
  unfold BitmapPc.span
  rw [← decide_not, ← Bool.decide_and, decide_eq_decide]
  omega

/-- An access takes a call soundly from `pc` to `next.1`. -/
def Advances (bitmapFields : ℕ) (request : Option ℕ) (bitmap : Fields)
    (pc : BitmapPc) (next : BitmapPc × Fields) : Prop :=
  next.1.Wf bitmapFields request ∧
    Moves (bit bitmap) (bit next.2) pc.held next.1.held

theorem advances_load
    (hgoes : pc'.GoesTo bitmapFields request pc.held) :
    Advances bitmapFields request bitmap pc (pc', bitmap) := by
  refine ⟨hgoes.1, ?_⟩
  dsimp only
  rw [hgoes.2]
  exact Moves.refl _ _

theorem advances_take
    (hown : ∀ b, pc.held b = true → bit bitmap b = true)
    (hclear : Clear bitmap lo hi) (hsets : Sets bitmap bitmap' lo hi)
    (hgoes : pc'.GoesTo bitmapFields request h')
    (hheld : ∀ b, h' b = (pc.held b || BitmapPc.span lo hi b)) :
    Advances bitmapFields request bitmap pc (pc', bitmap') := by
  refine ⟨hgoes.1, ?_⟩
  dsimp only
  rw [hgoes.2]
  apply Moves.take (BitmapPc.span lo hi) _ hsets hheld hown
  intro b hb
  have hin := of_decide_eq_true hb
  exact hclear b hin.1 hin.2

theorem advances_drop
    (hown : ∀ b, pc.held b = true → bit bitmap b = true)
    (hclears : Clears bitmap bitmap' lo hi)
    (hgoes : pc'.GoesTo bitmapFields request h')
    (hin : ∀ b, lo ≤ b → b < hi → pc.held b = true)
    (hheld : ∀ b, h' b = (pc.held b && !BitmapPc.span lo hi b)) :
    Advances bitmapFields request bitmap pc (pc', bitmap') := by
  refine ⟨hgoes.1, ?_⟩
  dsimp only
  rw [hgoes.2]
  apply Moves.drop (BitmapPc.span lo hi) _ hclears hheld hown
  intro b hb
  have hspan := of_decide_eq_true hb
  exact hin b hspan.1 hspan.2

/-- A compare-and-swap either finds what it expects or changes nothing. -/
theorem advances_cas (spurious : Bool) {expected newmap : BitVec 64}
    {failure : BitVec 64 → BitmapPc}
    (hfailure : (failure (bitmap field)).GoesTo bitmapFields request pc.held)
    (hsuccess : bitmap field = expected →
      Advances bitmapFields request bitmap pc
        (pc', Function.update bitmap field newmap)) :
    Advances bitmapFields request bitmap pc
      (BitmapPc.cas bitmap spurious field expected newmap pc' failure) := by
  unfold BitmapPc.cas
  split
  · rename_i hswap
    exact hsuccess hswap.1
  · exact advances_load hfailure

/-- Claiming bits of one field that were clear when it was read. -/
theorem advances_claim {start : ℕ} (hfit : start + count ≤ 64)
    (hfree : bitmap field &&& ones count start = 0)
    (hown : ∀ b, pc.held b = true → bit bitmap b = true)
    (hgoes : pc'.GoesTo bitmapFields request h')
    (hheld : ∀ b, h' b = (pc.held b ||
      BitmapPc.span (64 * field + start) (64 * field + start + count) b)) :
    Advances bitmapFields request bitmap pc
      (pc', Function.update bitmap field
        (bitmap field ||| ones count start)) :=
  advances_take hown ((and_ones_eq_zero_iff hfit).mp hfree) (sets_or hfit)
    hgoes hheld

/-- Claiming the first bits of a call. -/
theorem advances_claimed {start bitmapIdx : ℕ}
    (hwf : (BitmapPc.claimLoad count bitmapIdx).Wf bitmapFields request)
    (hindex : 64 * field + start = bitmapIdx) (hfit : start + count ≤ 64)
    (hfree : bitmap field &&& ones count start = 0)
    (hnone : pc.held = fun _ => false) :
    Advances bitmapFields request bitmap pc
      (.claimed bitmapIdx count, Function.update bitmap field
        (bitmap field ||| ones count start)) := by
  rcases hwf with ⟨hrequest, hidx, hpos, -⟩
  have hown : ∀ b, pc.held b = true → bit bitmap b = true := by
    intro b hb
    rw [hnone] at hb
    cases hb
  refine advances_claim hfit hfree hown
    ⟨⟨hrequest, hpos, by omega⟩, rfl⟩ ?_
  intro b
  rw [hnone, hindex]
  rfl

theorem findCas_advances (spurious : Bool) {idx bitidx : ℕ}
    (hwf : (BitmapPc.findCas idx count map bitidx).Wf bitmapFields request) :
    Advances bitmapFields request bitmap (.findCas idx count map bitidx)
      ((BitmapPc.findCas idx count map bitidx).access bitmapFields bitmap
        spurious) := by
  rcases hwf with ⟨hrequest, hidx, hpos, hfit, hfree⟩
  apply advances_cas
  · apply scan_goesTo idx _ hrequest hidx hpos
    intro bitidx' hfound
    have hspec := @scanField_spec (bitmap idx) count bitidx hpos (by omega)
    rw [hfound] at hspec
    exact hspec
  · rintro rfl
    rw [ones_shiftLeft hfit]
    exact advances_claimed ⟨hrequest, by omega, hpos, by omega⟩ rfl hfit hfree
      rfl

theorem claimCas_advances (spurious : Bool) {bitmapIdx : ℕ}
    (hwf : (BitmapPc.claimCas count bitmapIdx map).Wf bitmapFields request) :
    Advances bitmapFields request bitmap (.claimCas count bitmapIdx map)
      ((BitmapPc.claimCas count bitmapIdx map).access bitmapFields bitmap
        spurious) := by
  rcases hwf with ⟨hrequest, hidx, hpos, hfit, hfree⟩
  apply advances_cas
  · exact tryBits_goesTo _ ⟨hrequest, hidx, hpos, hfit⟩
  · rintro rfl
    exact advances_claimed ⟨hrequest, hidx, hpos, hfit⟩
      (Nat.div_add_mod bitmapIdx 64) hfit hfree rfl

theorem initialCas_advances (spurious : Bool)
    (hwf : (BitmapPc.initialCas range map).Wf bitmapFields request) :
    Advances bitmapFields request bitmap (.initialCas range map)
      ((BitmapPc.initialCas range map).access bitmapFields bitmap
        spurious) := by
  rcases hwf with ⟨hrange, hfree⟩
  have hle := hrange.initial_le
  have hend : 64 * range.idx + (64 - range.initial) + range.initial =
      64 * (range.idx + 1) := by omega
  apply advances_cas
  · exact tryInitial_goesTo _ hrange
  · rintro rfl
    have hown : ∀ b, (BitmapPc.initialCas range
        (bitmap range.idx)).held b = true → bit bitmap b = true := by
      intro b hb
      cases hb
    apply advances_claim (by omega) hfree hown
      (claimNext_goesTo hrange (Nat.lt_succ_self _) hrange.idx_lt)
    intro b
    rw [hend]
    rfl

theorem finalCas_advances (spurious : Bool)
    (hwf : (BitmapPc.finalCas range map).Wf bitmapFields request)
    (hown : ∀ b, (BitmapPc.finalCas range map).held b = true →
      bit bitmap b = true) :
    Advances bitmapFields request bitmap (.finalCas range map)
      ((BitmapPc.finalCas range map).access bitmapFields bitmap
        spurious) := by
  rcases hwf with ⟨hrange, hfree⟩
  have hbits := hrange.finalBits_le
  have hend := hrange.end_eq
  have hstart := hrange.start_ge
  have hlt := hrange.idx_lt
  apply advances_cas
  · exact tryFinal_goesTo _ hrange
  · rintro rfl
    refine advances_claim (by omega) hfree hown
      ⟨⟨hrange.call.request_eq, hrange.call.count_pos, hrange.end_le⟩, rfl⟩ ?_
    intro b
    show BitmapPc.span range.start (range.start + range.count) b = _
    rw [hend]
    exact span_append (by omega) (by omega) b

theorem field_clear (hzero : bitmap field = 0) :
    Clear bitmap (64 * field) (64 * (field + 1)) := by
  intro b hlo hhi
  have hdiv : b / 64 = field := by omega
  unfold bit
  rw [hdiv, hzero]
  exact BitVec.getLsbD_zero

theorem field_sets (bitmap : Fields) (field : ℕ) :
    Sets bitmap (Function.update bitmap field (BitVec.allOnes 64))
      (64 * field) (64 * (field + 1)) := by
  intro b
  rw [bit_update]
  by_cases hfield : b / 64 = field
  · have hin : 64 * field ≤ b ∧ b < 64 * (field + 1) := by omega
    have hlt : b % 64 < 64 := Nat.mod_lt b (by decide)
    rw [if_pos hfield, decide_eq_true hin, Bool.or_true,
      BitVec.getLsbD_allOnes, decide_eq_true hlt]
  · have hout : ¬ (64 * field ≤ b ∧ b < 64 * (field + 1)) := by omega
    rw [if_neg hfield, decide_eq_false hout, Bool.or_false]

theorem field_clears (bitmap : Fields) (field : ℕ) :
    Clears bitmap (Function.update bitmap field 0)
      (64 * field) (64 * (field + 1)) := by
  intro b
  rw [bit_update]
  by_cases hfield : b / 64 = field
  · have hin : 64 * field ≤ b ∧ b < 64 * (field + 1) := by omega
    rw [if_pos hfield, decide_eq_true hin, Bool.not_true, Bool.and_false]
    exact BitVec.getLsbD_zero
  · have hout : ¬ (64 * field ≤ b ∧ b < 64 * (field + 1)) := by omega
    rw [if_neg hfield, decide_eq_false hout, Bool.not_false, Bool.and_true]

theorem middleCas_advances (spurious : Bool)
    (hwf : (BitmapPc.middleCas range field).Wf bitmapFields request)
    (hown : ∀ b, (BitmapPc.middleCas range field).held b = true →
      bit bitmap b = true) :
    Advances bitmapFields request bitmap (.middleCas range field)
      ((BitmapPc.middleCas range field).access bitmapFields bitmap
        spurious) := by
  rcases hwf with ⟨hrange, hidx, hlt⟩
  have hstart := hrange.start_ge
  apply advances_cas
  · exact rollback_goesTo hrange hidx.le
  · intro hzero
    apply advances_take hown (field_clear hzero) (field_sets bitmap field)
      (claimNext_goesTo hrange (by omega) hlt)
    exact span_append (by omega) (by omega)

theorem rollbackStore_advances (spurious : Bool)
    (hwf : (BitmapPc.rollbackStore range field).Wf bitmapFields request)
    (hown : ∀ b, (BitmapPc.rollbackStore range field).held b = true →
      bit bitmap b = true) :
    Advances bitmapFields request bitmap (.rollbackStore range field)
      ((BitmapPc.rollbackStore range field).access bitmapFields bitmap
        spurious) := by
  rcases hwf with ⟨hrange, hidx⟩
  have hstart := hrange.start_ge
  apply advances_drop hown (field_clears bitmap field)
    (rollback_goesTo hrange hidx.le)
  · intro b hlo hhi
    apply decide_eq_true
    omega
  · exact span_diff (by omega)

theorem rollbackCas_advances (spurious : Bool)
    (hrange : range.Wf bitmapFields request)
    (hown : ∀ b, (BitmapPc.rollbackCas range map).held b = true →
      bit bitmap b = true) :
    Advances bitmapFields request bitmap (.rollbackCas range map)
      ((BitmapPc.rollbackCas range map).access bitmapFields bitmap
        spurious) := by
  have hle := hrange.initial_le
  have hend : 64 * range.idx + (64 - range.initial) + range.initial =
      64 * (range.idx + 1) := by omega
  apply advances_cas
  · exact ⟨hrange, rfl⟩
  · rintro rfl
    have hclears : Clears bitmap (Function.update bitmap range.idx
        (bitmap range.idx &&& ~~~range.initialMask)) range.start
        (64 * range.idx + (64 - range.initial) + range.initial) :=
      clears_and (by omega)
    rw [hend] at hclears
    apply advances_drop hown hclears (retry_goesTo hrange.call)
    · intro b hlo hhi
      exact decide_eq_true ⟨hlo, hhi⟩
    · intro b
      exact (Bool.and_not_self _).symm

/-! ## Releasing a range -/

theorem clear_held {masks : List (ℕ × BitVec 64)}
    (hrun : MaskRun masks lo hi) :
    (BitmapPc.clear masks).held = BitmapPc.span lo hi := by
  funext b
  induction hrun with
  | nil lo => exact (congrFun (span_empty le_rfl) b).symm
  | @cons field count start hi masks hfit hrest ih =>
      have hle := hrest.le
      show (decide (b / 64 = field) && (ones count start).getLsbD (b % 64) ||
        (BitmapPc.clear masks).held b) = _
      rw [ih, getLsbD_ones_mod hfit b]
      exact (span_append (by omega) hle b).symm

theorem clear_advances (spurious : Bool) {masks : List (ℕ × BitVec 64)}
    (hwf : (BitmapPc.clear masks).Wf bitmapFields request)
    (hown : ∀ b, (BitmapPc.clear masks).held b = true →
      bit bitmap b = true) :
    Advances bitmapFields request bitmap (.clear masks)
      ((BitmapPc.clear masks).access bitmapFields bitmap spurious) := by
  rcases hwf with ⟨hrequest, lo, hi, hrun⟩
  have hheld := clear_held hrun
  cases hrun with
  | nil lo => exact advances_load ⟨hrequest, rfl⟩
  | @cons field count start _ masks hfit hrest =>
      have hle := hrest.le
      have hgoes : (BitmapPc.clear masks).GoesTo bitmapFields request _ :=
        ⟨⟨hrequest, _, _, hrest⟩, clear_held hrest⟩
      apply advances_drop hown (clears_and hfit) hgoes
      · intro b hlo hhi
        rw [hheld]
        exact decide_eq_true ⟨hlo, hhi.trans_le hle⟩
      · intro b
        rw [hheld]
        unfold BitmapPc.span
        rw [← decide_not, ← Bool.decide_and, decide_eq_decide]
        omega

theorem access_advances (spurious : Bool)
    (hwf : pc.Wf bitmapFields request)
    (hown : ∀ b, pc.held b = true → bit bitmap b = true) :
    Advances bitmapFields request bitmap pc
      (pc.access bitmapFields bitmap spurious) := by
  cases pc with
  | idle => exact advances_load ⟨trivial, rfl⟩
  | findLoad idx count =>
      rcases hwf with ⟨hrequest, hidx, hpos, hle⟩
      apply advances_load
      apply scan_goesTo idx _ hrequest hidx hpos
      intro bitidx hfound
      have hspec := @findInField_spec (bitmap idx) count hpos hle
      rw [hfound] at hspec
      exact hspec
  | findCas idx count map bitidx => exact findCas_advances spurious hwf
  | acrossLoad call => exact advances_load (tryAcross_goesTo _ _ hwf)
  | acrossScan call initial field found =>
      exact advances_load (scanNext_goesTo _ hwf)
  | initialLoad range => exact advances_load (tryInitial_goesTo _ hwf)
  | initialCas range map => exact initialCas_advances spurious hwf
  | middleCas range field => exact middleCas_advances spurious hwf hown
  | finalLoad range => exact advances_load (tryFinal_goesTo _ hwf)
  | finalCas range map => exact finalCas_advances spurious hwf hown
  | rollbackStore range field =>
      exact rollbackStore_advances spurious hwf hown
  | rollbackLoad range => exact advances_load ⟨hwf, rfl⟩
  | rollbackCas range map => exact rollbackCas_advances spurious hwf hown
  | claimLoad count bitmapIdx => exact advances_load (tryBits_goesTo _ hwf)
  | claimCas count bitmapIdx expected => exact claimCas_advances spurious hwf
  | clear masks => exact clear_advances spurious hwf hown
  | claimed bitmapIdx count => exact advances_load ⟨hwf, rfl⟩
  | failed => exact advances_load ⟨hwf, rfl⟩
  | released => exact advances_load ⟨hwf, rfl⟩
  | unclaimed => exact advances_load ⟨hwf, rfl⟩

end Palloc
