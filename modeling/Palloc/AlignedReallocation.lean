import Palloc.Reallocation

/-!
# Aligned reallocation

`pa_heap_realloc_zero_aligned_at` leaves alignments up to the word size to
`_pa_heap_realloc_zero`, which knows nothing of the offset.  For a larger
alignment it keeps an object that is aligned and wastes at most half of its
block, and otherwise allocates an aligned block without zeroing it, zeroes its
end from one word before the end of the old object, and copies.
-/

namespace Palloc

open ByteMemory BlockHeap

variable {b : BlockBuild} (layer : PageLayer b)

/-- `pa_heap_realloc_zero_aligned_at`. -/
def heapReallocZeroAlignedAt (check : Bool) (st : BlockHeap)
    (p : Option HeapObject) (newsize alignment offset : ℕ) (zero : Bool)
    (next : ℕ) (commit : Bool) : Option Reallocation :=
  if alignment ≤ intptrSize then
    heapReallocZero layer check st p newsize zero next commit
  else
    match p with
    | none =>
        let (result, st) := heapMallocZeroAlignedAt layer check st newsize
          alignment offset zero
        some ⟨result, st, [], false⟩
    | some o =>
        let size :=
          pageUsableSize b st.mem o.ptr (validatePtrPage check st o)
        if ReallocAlignedFits o.ptr size newsize alignment offset then
          some (reallocKeep st o newsize)
        else
          match heapMallocZeroAlignedAt layer check st newsize alignment
              offset false with
          | (none, st) => some ⟨none, st, [], false⟩
          | (some new, st) =>
              some (replaceObject layer check st (some o) new
                (reallocAlignedContent st.mem new.ptr o.ptr size newsize
                  zero))

/-! ## Contents -/

section Contents

variable {mem : Mem} {newp p size newsize : ℕ}

theorem reallocAlignedContent_copies {zero : Bool} {i : ℕ}
    (hapart : newp + newsize ≤ p ∨ p + min newsize size ≤ newp)
    (hi : i < min newsize size) :
    reallocAlignedContent mem newp p size newsize zero (newp + i) =
      mem (p + i) := by
  unfold reallocAlignedContent
  dsimp only
  refine @copy_after_write _ _ _ _ _ (newp + newsize) _ ?_ hapart hi
  split
  · next htail =>
      rw [Bool.and_eq_true, decide_eq_true_iff] at htail
      have hstart : (if intptrSize ≤ size then size - intptrSize else 0) ≤
          newsize := by
        split <;> omega
      generalize (if intptrSize ≤ size then size - intptrSize else 0) = start
        at hstart ⊢
      exact fill_changesOnly.mono (by omega) (by omega)
  · exact ChangesOnly.refl _ _ mem

theorem copy_keeps_zero {start i : ℕ} (hstart : start ≤ size)
    (hsize : size ≤ i) (hi : i < newsize) :
    copy (fill mem (newp + start) (newsize - start) 0) newp p
      (min newsize size) (newp + i) = 0 := by
  have hcopy : copy (fill mem (newp + start) (newsize - start) 0) newp p
      (min newsize size) (newp + i) =
      fill mem (newp + start) (newsize - start) 0 (newp + i) :=
    copy_changesOnly _ (by omega)
  rw [hcopy]
  exact fill_allBytes _ (by omega) (by omega)

theorem reallocContent_zero {i : ℕ} (hsize : size ≤ i) (hi : i < newsize) :
    reallocContent mem newp p size newsize true (newp + i) = 0 := by
  have htail : (true && decide (size < newsize)) = true := by
    rw [Bool.true_and, decide_eq_true_iff]
    omega
  unfold reallocContent
  rw [if_pos htail]
  exact copy_keeps_zero le_rfl hsize hi

theorem reallocAlignedContent_zero {i : ℕ} (hsize : size ≤ i)
    (hi : i < newsize) :
    reallocAlignedContent mem newp p size newsize true (newp + i) = 0 := by
  have htail : (true && decide (size < newsize)) = true := by
    rw [Bool.true_and, decide_eq_true_iff]
    omega
  unfold reallocAlignedContent
  dsimp only
  rw [if_pos htail]
  refine copy_keeps_zero ?_ hsize hi
  split <;> omega

end Contents

/-! ## The contract -/

section Contract

variable {st st₁ : BlockHeap} {o new : HeapObject}
variable {newsize alignment offset next : ℕ} {zero check commit : Bool}
variable {page : BlockPage} {mem : Mem}

structure AlignedSuccess (b : BlockBuild) (st : BlockHeap) (o : HeapObject)
    (newsize alignment offset : ℕ) (zero : Bool) (r : Reallocation)
    (new : HeapObject) : Prop where
  live : new ∈ r.heap.live
  aligned : (new.ptr + offset) % alignment = 0
  content : ∀ page, st.pages o.page = some page →
    ∀ i < min newsize (usableSize b st.mem page o.ptr),
      r.heap.mem (new.ptr + i) = st.mem (o.ptr + i)
  zeroed : zero = true → new.ptr ≠ o.ptr →
    ∀ page, st.pages o.page = some page →
      ∀ i, usableSize b st.mem page o.ptr ≤ i → i < newsize →
        r.heap.mem (new.ptr + i) = 0
  freed : r.freed = if new.ptr = o.ptr then [] else [o]

structure AlignedReallocContract (b : BlockBuild) (st : BlockHeap)
    (o : HeapObject) (newsize alignment offset : ℕ) (zero : Bool)
    (r : Reallocation) : Prop where
  success : ∀ new, r.result = some new →
    AlignedSuccess b st o newsize alignment offset zero r new
  failure : r.result = none → ReallocFailure b st o false r

theorem AllocOutcome.failed_aligned (ho : o ∈ st.live)
    (hfail : AllocOutcome b st newsize none st₁) :
    AlignedReallocContract b st o newsize alignment offset zero
      ⟨none, st₁, [], false⟩ :=
  ⟨fun _ hsome => (nomatch hsome),
    (@AllocOutcome.failed_contract b st st₁ o newsize true ho hfail).failure⟩

/-- An object that moved meets the contract exactly when it is aligned. -/
theorem Replaced.aligned_iff {newPage : BlockPage} {r : Reallocation}
    (h : HeapOk b st) (ho : o ∈ st.live)
    (hpage : st.pages o.page = some page)
    (hnew : AllocOutcome b st newsize (some new) st₁)
    (hnewPage : st₁.pages new.page = some newPage)
    (hr : Replaced b st o new newPage mem r)
    (hcontent : ∀ i < min newsize (usableSize b st.mem page o.ptr),
      mem (new.ptr + i) = st.mem (o.ptr + i))
    (hzero : zero = true → ∀ i, usableSize b st.mem page o.ptr ≤ i →
      i < newsize → mem (new.ptr + i) = 0) :
    AlignedReallocContract b st o newsize alignment offset zero r ↔
      (new.ptr + offset) % alignment = 0 := by
  constructor
  · intro hcontract
    exact (hcontract.success new hr.result).aligned
  · intro haligned
    refine ⟨?_, ?_⟩
    · intro new' hresult
      rw [hr.result] at hresult
      obtain rfl := Option.some.inj hresult
      refine ⟨hr.new_mem, haligned, ?_, ?_, ?_⟩
      · intro p hp i hi
        obtain rfl : page = p := Option.some.inj (hpage.symm.trans hp)
        rw [← hcontent i hi]
        exact hr.bytes hnew hnewPage (by omega)
      · intro hzeroed _ p hp i hsize hi
        obtain rfl : page = p := Option.some.inj (hpage.symm.trans hp)
        rw [← hzero hzeroed i hsize hi]
        exact hr.bytes hnew hnewPage hi
      · rw [hr.freed, if_neg (hnew.ptr_ne h ho)]
    · intro hnone
      rw [hr.result] at hnone
      exact nomatch hnone

/-- An object that keeps its address meets the contract exactly when it is
aligned. -/
theorem kept_aligned_iff {r : Reallocation} {o' : HeapObject}
    (hresult : r.result = some o') (hlive : o' ∈ r.heap.live)
    (hptr : o'.ptr = o.ptr) (hfreed : r.freed = [])
    (hmem : ∀ page, st.pages o.page = some page →
      ∀ i < usableSize b st.mem page o.ptr,
        r.heap.mem (o.ptr + i) = st.mem (o.ptr + i)) :
    AlignedReallocContract b st o newsize alignment offset zero r ↔
      (o.ptr + offset) % alignment = 0 := by
  constructor
  · intro hcontract
    have haligned := (hcontract.success o' hresult).aligned
    rw [hptr] at haligned
    exact haligned
  · intro haligned
    refine ⟨?_, ?_⟩
    · intro new hnew
      rw [hresult] at hnew
      obtain rfl := Option.some.inj hnew
      refine ⟨hlive, by rw [hptr]; exact haligned, ?_,
        fun _ hne => absurd hptr hne, by rw [hfreed, if_pos hptr]⟩
      intro p hp i hi
      rw [hptr]
      exact hmem p hp i (by omega)
    · intro hnone
      rw [hresult] at hnone
      exact nomatch hnone

theorem reallocKeep_aligned (haligned : (o.ptr + offset) % alignment = 0) :
    AlignedReallocContract b st o newsize alignment offset zero
      (reallocKeep st o newsize) := by
  have hiff : AlignedReallocContract b st o newsize alignment offset zero
      (reallocKeep st o newsize) ↔ (o.ptr + offset) % alignment = 0 :=
    kept_aligned_iff rfl List.mem_cons_self rfl rfl fun _ _ _ _ => rfl
  exact hiff.mpr haligned

theorem replaceObject_refused (h : HeapOk b st) (ho : o ∈ st.live)
    (hnew : AllocOutcome b st newsize (some new) st₁)
    (hrefused : ptrAccepted check o.ptr = false) :
    ¬AlignedReallocContract b st o newsize alignment offset zero
      (replaceObject layer check st₁ (some o) new mem) := by
  intro hcontract
  have hfreed := (hcontract.success new rfl).freed
  unfold replaceObject at hfreed
  dsimp only at hfreed
  rw [freeObject_refused layer hrefused, if_neg (hnew.ptr_ne h ho)] at hfreed
  exact nomatch hfreed

/-- The conditions under which `pa_heap_realloc_zero_aligned_at` meets its
contract.  For an alignment up to the word size the offset has to fit by
itself, and an address that `pa_free` refuses must not have to be moved. -/
def ReallocAlignedWhen (check : Bool) (st : BlockHeap) (o : HeapObject)
    (page : BlockPage) (newsize alignment offset next : ℕ) (commit : Bool) :
    Prop :=
  let size := usableSize b st.mem page o.ptr
  if ptrAccepted check o.ptr then
    alignment ≤ intptrSize →
      if ReallocFits size newsize ∨
          ReallocExtends page size newsize next commit then
        (o.ptr + offset) % alignment = 0
      else
        (heapMallocZero layer st newsize false).1 = none ∨
          offset % alignment = 0
  else if alignment ≤ intptrSize then
    ¬(0 < newsize ∧ newsize ≤ largeObjSizeMax) ∧
      (heapMallocZero layer st newsize false).1 = none
  else
    newsize = 0 ∧ (o.ptr + offset) % alignment = 0 ∨
      (heapMallocZeroAlignedAt layer check st newsize alignment offset
        false).1 = none

theorem reallocExtend_bytes (hpage : st.pages o.page = some page)
    {p : BlockPage} (hp : st.pages o.page = some p) {i : ℕ}
    (hi : i < usableSize b st.mem p o.ptr) :
    (reallocExtend b st o page newsize zero).mem (o.ptr + i) =
      st.mem (o.ptr + i) := by
  obtain rfl : page = p := Option.some.inj (hpage.symm.trans hp)
  unfold reallocExtend
  dsimp only
  split
  · exact fill_changesOnly _ (by omega)
  · rfl

/-- Alignments up to the word size, when the address is accepted. -/
theorem realloc_small_alignment_iff {k : ℕ} (h : HeapOk b st)
    (ho : o ∈ st.live) (hpage : st.pages o.page = some page)
    (haccepted : ptrAccepted check o.ptr = true)
    (hsmall : 2 ^ k ≤ intptrSize) :
    (∃ r, heapReallocZero layer check st (some o) newsize zero next commit =
        some r ∧
      AlignedReallocContract b st o newsize (2 ^ k) offset zero r) ↔
      if ReallocFits (usableSize b st.mem page o.ptr) newsize ∨
          ReallocExtends page (usableSize b st.mem page o.ptr) newsize next
            commit then
        (o.ptr + offset) % 2 ^ k = 0
      else
        (heapMallocZero layer st newsize false).1 = none ∨
          offset % 2 ^ k = 0 := by
  obtain ⟨r, hrun, hway⟩ := heapReallocZero_way layer newsize next zero
    commit hpage haccepted
  have hexists : (∃ r', heapReallocZero layer check st (some o) newsize zero
      next commit = some r' ∧
        AlignedReallocContract b st o newsize (2 ^ k) offset zero r') ↔
      AlignedReallocContract b st o newsize (2 ^ k) offset zero r := by
    constructor
    · rintro ⟨r', hrun', hcontract⟩
      obtain rfl := Option.some.inj (hrun.symm.trans hrun')
      exact hcontract
    · exact fun hcontract => ⟨r, hrun, hcontract⟩
  rw [hexists]
  cases hway with
  | keep hfits =>
      rw [if_pos (Or.inl hfits)]
      exact kept_aligned_iff rfl List.mem_cons_self rfl rfl
        fun _ _ _ _ => rfl
  | extend hextends =>
      rw [if_pos (Or.inr hextends)]
      exact kept_aligned_iff rfl List.mem_cons_self rfl rfl
        fun p hp i hi => reallocExtend_bytes hpage hp hi
  | copy hfits hextends =>
      rw [if_neg (not_or.mpr ⟨hfits, hextends⟩)]
      rcases reallocCopy_replaced layer page newsize zero h ho haccepted with
        ⟨st₁, hfail, hr, hnone⟩ |
        ⟨st₁, new, newPage, hout, hsome, -, hword, hnewPage, hr⟩
      · rw [hr]
        exact iff_of_true (hfail.failed_aligned ho) (Or.inl hnone)
      · obtain ⟨hapart, hsame⟩ := hout.source h ho hpage
        have hdvd : 2 ^ k ∣ new.ptr := by
          have hk : 2 ^ k ∣ 2 ^ 3 := by
            apply pow_dvd_pow
            by_contra hlarge
            have hlt := Nat.pow_lt_pow_right (a := 2) (by decide)
              (not_le.mp hlarge)
            exact absurd hsmall (not_le.mpr hlt)
          exact hk.trans hword
        have hoffset : (new.ptr + offset) % 2 ^ k = 0 ↔
            offset % 2 ^ k = 0 := by
          rw [← Nat.dvd_iff_mod_eq_zero, ← Nat.dvd_iff_mod_eq_zero]
          exact Nat.dvd_add_right hdvd
        refine (hr.aligned_iff h ho hpage hout hnewPage
          (fun i hi => (reallocContent_copies hapart hi).trans (hsame i hi))
          ?_).trans ?_
        · rintro rfl i hsize hi
          exact reallocContent_zero hsize hi
        rw [hoffset, hsome]
        exact ⟨Or.inr, fun h => h.resolve_left fun hnone => nomatch hnone⟩

/-- Larger alignments always meet the contract when the address is
accepted. -/
theorem realloc_large_alignment {k : ℕ} (h : HeapOk b st)
    (ho : o ∈ st.live) (hpage : st.pages o.page = some page)
    (haccepted : ptrAccepted check o.ptr = true)
    (hlarge : ¬2 ^ k ≤ intptrSize) :
    ∃ r, heapReallocZeroAlignedAt layer check st (some o) newsize (2 ^ k)
        offset zero next commit = some r ∧
      AlignedReallocContract b st o newsize (2 ^ k) offset zero r := by
  have hvalidate : validatePtrPage check st o = some page := by
    unfold validatePtrPage
    rw [if_pos haccepted, hpage]
  obtain ⟨hout, haligned⟩ := heapMallocZeroAlignedAt_outcome layer check
    newsize (2 ^ k) offset false h
  unfold heapReallocZeroAlignedAt
  rw [if_neg hlarge]
  dsimp only
  rw [hvalidate]
  by_cases hfits : ReallocAlignedFits o.ptr
      (pageUsableSize b st.mem o.ptr (some page)) newsize (2 ^ k) offset
  · rw [if_pos hfits]
    exact ⟨_, rfl, reallocKeep_aligned hfits.2.2⟩
  · rw [if_neg hfits]
    cases hrun : heapMallocZeroAlignedAt layer check st newsize (2 ^ k) offset
        false with
    | mk result st₁ =>
        rw [hrun] at hout haligned
        cases result with
        | none => exact ⟨_, rfl, hout.failed_aligned ho⟩
        | some new =>
            obtain ⟨newPage, u, hnew⟩ := hout.ok.live new hout.mem
            have hle := hnew.usable_le
            have hge := hnew.ptr_ge
            have hfitsNew := hnew.fits
            have hasked : new.asked = newsize := hout.asked new rfl
            have hwrite : ChangesOnly new.block
                (new.block + usableBlockSize b newPage) st₁.mem
                (reallocAlignedContent st₁.mem new.ptr o.ptr
                  (usableSize b st.mem page o.ptr) newsize zero) :=
              reallocAlignedContent_changesOnly.mono hge (by omega)
            have hr := replaceObject_replaced layer h ho hout hnew.hpage
              hwrite haccepted
            obtain ⟨hapart, hsame⟩ := hout.source h ho hpage
            refine ⟨_, rfl, (hr.aligned_iff h ho hpage hout hnew.hpage ?_
              ?_).mpr (Nat.mod_eq_zero_of_dvd (haligned new rfl).1)⟩
            · intro i hi
              exact (reallocAlignedContent_copies hapart hi).trans
                (hsame i hi)
            · rintro rfl i hsize hi
              exact reallocAlignedContent_zero hsize hi

/-- Small alignments, when the address is refused. -/
theorem realloc_small_alignment_refused (h : HeapOk b st)
    (ho : o ∈ st.live) (hrefused : ptrAccepted check o.ptr = false) :
    (∃ r, heapReallocZero layer check st (some o) newsize zero next commit =
        some r ∧
      AlignedReallocContract b st o newsize alignment offset zero r) ↔
      ¬(0 < newsize ∧ newsize ≤ largeObjSizeMax) ∧
        (heapMallocZero layer st newsize false).1 = none := by
  obtain ⟨hout, -⟩ := heapMallocZero_outcome layer newsize false h
  rw [heapReallocZero_refused layer hrefused]
  by_cases hsize : 0 < newsize ∧ newsize ≤ largeObjSizeMax
  · rw [if_pos hsize]
    refine iff_of_false ?_ fun hcond => hcond.1 hsize
    rintro ⟨r, hrun, -⟩
    exact nomatch hrun
  · rw [if_neg hsize]
    unfold reallocCopy
    cases hrun : heapMallocZero layer st newsize false with
    | mk result st₁ =>
        rw [hrun] at hout
        cases result with
        | none =>
            exact iff_of_true ⟨_, rfl, hout.failed_aligned ho⟩ ⟨hsize, rfl⟩
        | some new =>
            refine iff_of_false ?_ fun hcond => nomatch hcond.2
            rintro ⟨r, hr, hcontract⟩
            obtain rfl := Option.some.inj hr
            exact replaceObject_refused layer h ho hout hrefused hcontract

/-- Larger alignments, when the address is refused. -/
theorem realloc_large_alignment_refused {k : ℕ} (h : HeapOk b st)
    (ho : o ∈ st.live) (hrefused : ptrAccepted check o.ptr = false)
    (hlarge : ¬2 ^ k ≤ intptrSize) :
    (∃ r, heapReallocZeroAlignedAt layer check st (some o) newsize (2 ^ k)
        offset zero next commit = some r ∧
      AlignedReallocContract b st o newsize (2 ^ k) offset zero r) ↔
      newsize = 0 ∧ (o.ptr + offset) % 2 ^ k = 0 ∨
        (heapMallocZeroAlignedAt layer check st newsize (2 ^ k) offset
          false).1 = none := by
  have hvalidate : validatePtrPage check st o = none := by
    unfold validatePtrPage
    rw [if_neg (by rw [hrefused]; exact Bool.false_ne_true)]
  obtain ⟨hout, -⟩ := heapMallocZeroAlignedAt_outcome layer check
    newsize (2 ^ k) offset false h
  have hfitsIff : ReallocAlignedFits o.ptr
      (pageUsableSize b st.mem o.ptr none) newsize (2 ^ k) offset ↔
      newsize = 0 ∧ (o.ptr + offset) % 2 ^ k = 0 :=
    ⟨fun hfits => ⟨Nat.le_zero.mp hfits.1, hfits.2.2⟩,
      fun hfits => ⟨hfits.1.le,
        (Nat.sub_le _ _).trans (Nat.zero_le newsize), hfits.2⟩⟩
  unfold heapReallocZeroAlignedAt
  rw [if_neg hlarge]
  dsimp only
  rw [hvalidate]
  by_cases hfits : ReallocAlignedFits o.ptr
      (pageUsableSize b st.mem o.ptr none) newsize (2 ^ k) offset
  · rw [if_pos hfits]
    exact iff_of_true ⟨_, rfl, reallocKeep_aligned hfits.2.2⟩
      (Or.inl (hfitsIff.mp hfits))
  · rw [if_neg hfits]
    cases hrun : heapMallocZeroAlignedAt layer check st newsize (2 ^ k) offset
        false with
    | mk result st₁ =>
        rw [hrun] at hout
        cases result with
        | none =>
            exact iff_of_true ⟨_, rfl, hout.failed_aligned ho⟩ (Or.inr rfl)
        | some new =>
            refine iff_of_false ?_ fun hcond => hcond.elim
              (fun hkeep => hfits (hfitsIff.mpr hkeep))
              fun hnone => nomatch hnone
            rintro ⟨r, hr, hcontract⟩
            obtain rfl := Option.some.inj hr
            exact replaceObject_refused layer h ho hout hrefused hcontract

end Contract

/-! ## An offset that is not looked at -/

section SmallAlignment

/-- The object of `pa_malloc_aligned_at(64, 16, 8)`. -/
def offsetObject : HeapObject := ⟨0, 33620064, 33620072, 64⟩

theorem offsetObject_live : offsetObject ∈ (alignedResult 8).2.live := by
  apply alignedResult_live
  decide +kernel

end SmallAlignment

end Palloc
