import Palloc.HugePages
import Mathlib.Order.Interval.Set.Basic
import Mathlib.Data.Set.Lattice
import Mathlib.Order.CompletePartialOrder

/-!
# Aligned allocation from the operating system

`pa_os_prim_alloc_aligned` asks for memory and hopes that it is aligned.  When
it is not, it is given back, and more is asked for, in which an aligned window
is kept.  Where a part of an allocation can be freed, what lies before and
after the window is freed; elsewhere the start of the whole allocation is
remembered as the base.
-/

namespace Palloc

open MachineWord

/-! ## The operating system -/

/-- The calls of `_pa_prim_alloc` that succeeded, and of `_pa_prim_free`; in a
list of calls the last one is the first. -/
inductive OsMemCall where
  | alloc (addr size : ℕ)
  | free (addr size : ℕ)
  deriving DecidableEq

/-- The size of the last allocation that started at an address. -/
def allocationSize : List OsMemCall → ℕ → ℕ
  | [], _ => 0
  | .alloc addr size :: calls, base =>
    if addr = base then size else allocationSize calls base
  | .free _ _ :: calls, base => allocationSize calls base

/-- The bytes that are owned after some calls.  Where a part of an allocation
can be freed, the pages of the range are; elsewhere the allocation that starts
at the address is freed, whatever size is given. -/
def ownedBytes (partialFree : Bool) (pageSize : ℕ) : List OsMemCall → Set ℕ
  | [] => ∅
  | .alloc addr size :: calls =>
    ownedBytes partialFree pageSize calls ∪ Set.Ico addr (addr + size)
  | .free addr size :: calls =>
    ownedBytes partialFree pageSize calls \
      Set.Ico addr (addr +
        if partialFree then exactAlignUp size pageSize
        else allocationSize calls addr)

/-- What `_pa_prim_alloc` answers. -/
structure OsPrimAnswer where
  ptr : Option ℕ
  isLarge : Bool
  isZero : Bool

structure OsSystem where
  pageShift : ℕ
  hasPartialFree : Bool
  alloc : List OsMemCall → (size tryAlignment : ℕ) →
    (commit allowLarge : Bool) → OsPrimAnswer
  /-- The answer of `_pa_os_commit`. -/
  commit : List OsMemCall → (start size : ℕ) → Bool
  gives : ∀ calls size tryAlignment commit allowLarge p,
    (alloc calls size tryAlignment commit allowLarge).ptr = some p →
      0 < p ∧ 2 ^ pageShift ∣ p ∧ p + size ≤ wordSize ∧
        Disjoint (ownedBytes hasPartialFree (2 ^ pageShift) calls)
          (Set.Ico p (p + size))

namespace OsSystem

/-- `_pa_os_page_size`. -/
def pageSize (os : OsSystem) : ℕ := 2 ^ os.pageShift

def owned (os : OsSystem) (calls : List OsMemCall) : Set ℕ :=
  ownedBytes os.hasPartialFree os.pageSize calls

end OsSystem

structure OsState where
  calls : List OsMemCall
  reserved : ℤ
  committed : ℤ

/-- `pa_os_prim_free`. -/
def OsState.primFree (st : OsState) (addr size commitSize : ℕ) : OsState :=
  if addr = 0 then st
  else
    { calls := .free addr size :: st.calls
      committed :=
        if 0 < commitSize then st.committed - commitSize else st.committed
      reserved := st.reserved - size }

/-! ## Allocation -/

/-- `pa_os_prim_alloc`. -/
def osPrimAlloc (os : OsSystem) (size tryAlignment : ℕ)
    (commit allowLarge : Bool) (st : OsState) : OsPrimAnswer × OsState :=
  if size = 0 then (⟨none, false, false⟩, st)
  else
    let allowLarge := if commit then allowLarge else false
    let tryAlignment := if tryAlignment = 0 then 1 else tryAlignment
    let answer := os.alloc st.calls size tryAlignment commit allowLarge
    match answer.ptr with
    | none => (answer, st)
    | some p =>
      (answer,
        { calls := .alloc p size :: st.calls
          reserved := st.reserved + size
          committed :=
            if commit then st.committed + size else st.committed })

def wordSub (a b : ℕ) : ℕ := (wordSize + a - b) % wordSize

/-- What `pa_os_prim_alloc_aligned` returns. -/
structure AlignedAlloc where
  ptr : ℕ
  base : ℕ
  isLarge : Bool
  isZero : Bool

/-- The over-allocation where an allocation is freed as a whole: the window is
committed and the base is remembered. -/
def osPrimAllocInside (os : OsSystem) (size alignment overSize : ℕ)
    (commit : Bool) (st : OsState) : Option AlignedAlloc × OsState :=
  let (answer, st) := osPrimAlloc os overSize 1 false false st
  match answer.ptr with
  | none => (none, st)
  | some base =>
    let p := wordAlignUp base alignment
    if commit then
      if os.commit st.calls p size then
        (some ⟨p, base, answer.isLarge, answer.isZero⟩,
          { st with committed := st.committed + size })
      else (none, st.primFree base overSize 0)
    else (some ⟨p, base, answer.isLarge, answer.isZero⟩, st)

/-- The over-allocation where parts can be freed: what lies around the window
is. -/
def osPrimAllocTrimmed (os : OsSystem) (size alignment overSize : ℕ)
    (commit : Bool) (st : OsState) : Option AlignedAlloc × OsState :=
  let (answer, st) := osPrimAlloc os overSize 1 commit false st
  match answer.ptr with
  | none => (none, st)
  | some p =>
    let alignedP := wordAlignUp p alignment
    let preSize := wordSub alignedP p
    let midSize := wordAlignUp size os.pageSize
    let postSize := wordSub (wordSub overSize preSize) midSize
    let st :=
      if 0 < preSize then
        st.primFree p preSize (if commit then preSize else 0)
      else st
    let st :=
      if 0 < postSize then
        st.primFree ((alignedP + midSize) % wordSize) postSize
          (if commit then postSize else 0)
      else st
    (some ⟨alignedP, alignedP, answer.isLarge, answer.isZero⟩, st)

/-- `pa_os_prim_alloc_aligned`. -/
def osPrimAllocAligned (os : OsSystem) (size alignment : ℕ)
    (commit allowLarge : Bool) (st : OsState) :
    Option AlignedAlloc × OsState :=
  if ¬ (os.pageSize ≤ alignment ∧ alignment &&& (alignment - 1) = 0) then
    (none, st)
  else
    let size := wordAlignUp size os.pageSize
    let (answer, st) := osPrimAlloc os size alignment commit allowLarge st
    match answer.ptr with
    | none => (none, st)
    | some p =>
      if p % alignment = 0 then
        (some ⟨p, p, answer.isLarge, answer.isZero⟩, st)
      else
        let st := st.primFree p size (if commit then size else 0)
        if maxWord - alignment ≤ size then (none, st)
        else
          let overSize := (size + alignment) % wordSize
          if os.hasPartialFree then
            osPrimAllocTrimmed os size alignment overSize commit st
          else osPrimAllocInside os size alignment overSize commit st

/-- `_pa_os_alloc_aligned`. -/
def osAllocAligned (os : OsSystem) (size alignment : ℕ)
    (commit allowLarge : Bool) (st : OsState) :
    Option (ℕ × OsMemid) × OsState :=
  if size = 0 then (none, st)
  else
    let size := osGoodAllocSize ⟨os.pageSize, 0⟩ size
    let alignment := wordAlignUp alignment os.pageSize
    match osPrimAllocAligned os size alignment commit allowLarge st with
    | (none, st) => (none, st)
    | (some r, st) =>
      let memid := OsMemid.createOs r.ptr size commit r.isZero r.isLarge
      (some (r.ptr,
        { memid with
          base := r.base
          size := (memid.size + wordSub r.ptr r.base) % wordSize }), st)

/-! ## Freeing -/

/-- The range that `_pa_os_free_ex` frees for memory of the operating system:
the base, the size and what of it was committed. -/
def osFreeRange (sizes : SegmentSizes) (addr size : ℕ)
    (stillCommitted : Bool) (memid : OsMemid) : ℕ × ℕ × ℕ :=
  let csize :=
    if memid.size = 0 then osGoodAllocSize sizes size else memid.size
  let commitSize := if stillCommitted then csize else 0
  if memid.base ≠ addr then
    let diff := wordSub addr memid.base
    (memid.base,
      if memid.size = 0 then (csize + diff) % wordSize else csize,
      if stillCommitted then wordSub commitSize diff else 0)
  else (addr, csize, commitSize)

/-- `_pa_os_free` of memory that is not in huge pages. -/
def OsState.osFree (os : OsSystem) (addr size : ℕ) (memid : OsMemid)
    (st : OsState) : OsState :=
  if memkindIsOs memid.memkind then
    let range := osFreeRange ⟨os.pageSize, 0⟩ addr size true memid
    st.primFree range.1 range.2.1 range.2.2
  else st

/-! ## What is owned -/

namespace OsSystem

variable {os : OsSystem} {calls : List OsMemCall} {p n : ℕ}

theorem pageSize_pos (os : OsSystem) : 0 < os.pageSize :=
  Nat.pow_pos (by decide)

theorem owned_alloc (os : OsSystem) (calls : List OsMemCall) (p n : ℕ) :
    os.owned (.alloc p n :: calls) = os.owned calls ∪ Set.Ico p (p + n) :=
  rfl

theorem owned_partial_free (hpart : os.hasPartialFree = true)
    (hdvd : os.pageSize ∣ n) :
    os.owned (.free p n :: calls) = os.owned calls \ Set.Ico p (p + n) := by
  rw [owned, owned, ownedBytes, hpart, if_pos rfl,
    exactAlignUp_of_dvd os.pageSize_pos hdvd]

theorem owned_free_alloc (hdvd : os.pageSize ∣ n)
    (hfresh : Disjoint (os.owned calls) (Set.Ico p (p + n))) :
    os.owned (.free p n :: .alloc p n :: calls) = os.owned calls := by
  have hrange : os.owned (.free p n :: .alloc p n :: calls) =
      (os.owned calls ∪ Set.Ico p (p + n)) \ Set.Ico p (p + n) := by
    cases hpart : os.hasPartialFree with
    | true => rw [owned_partial_free hpart hdvd, owned_alloc]
    | false => simp [owned, ownedBytes, allocationSize, hpart]
  rw [hrange, Set.union_sdiff_right]
  exact hfresh.sdiff_eq_left

/-- Freeing what lies before and after a window keeps the window. -/
theorem owned_trimmed {pre size post : ℕ}
    (hpart : os.hasPartialFree = true) (hpre : os.pageSize ∣ pre)
    (hpost : os.pageSize ∣ post)
    (hfresh : Disjoint (os.owned calls)
      (Set.Ico p (p + (pre + size + post)))) :
    os.owned (.free (p + pre + size) post :: .free p pre ::
      .alloc p (pre + size + post) :: calls) =
      os.owned calls ∪ Set.Ico (p + pre) (p + pre + size) := by
  rw [owned_partial_free hpart hpost,
    owned_partial_free hpart hpre, owned_alloc]
  ext x
  have hnot : x ∈ os.owned calls → ¬ (p ≤ x ∧ x < p + (pre + size + post)) :=
    fun hx hrange => Set.disjoint_left.mp hfresh hx hrange
  simp only [Set.mem_sdiff, Set.mem_union, Set.mem_Ico]
  constructor
  · intro hx
    obtain ⟨⟨hmem, hbefore⟩, hafter⟩ := hx
    rcases hmem with hmem | hmem
    · exact Or.inl hmem
    · right
      omega
  · intro hx
    rcases hx with hmem | hmem
    · have hout := hnot hmem
      refine ⟨⟨Or.inl hmem, ?_⟩, ?_⟩ <;> omega
    · refine ⟨⟨Or.inr ?_, ?_⟩, ?_⟩ <;> omega

end OsSystem

/-! ## One allocation -/

structure OsGiven (os : OsSystem) (st st' : OsState) (p size : ℕ) :
    Prop where
  pos : 0 < p
  page : os.pageSize ∣ p
  fits : p + size ≤ wordSize
  fresh : Disjoint (os.owned st.calls) (Set.Ico p (p + size))
  calls : st'.calls = .alloc p size :: st.calls

section

variable {os : OsSystem} {size tryAlignment alignment : ℕ}
  {commit allowLarge : Bool} {st st' : OsState} {answer : OsPrimAnswer}

theorem osPrimAlloc_none
    (halloc : osPrimAlloc os size tryAlignment commit allowLarge st =
      (answer, st')) (hnone : answer.ptr = none) : st' = st := by
  unfold osPrimAlloc at halloc
  split at halloc
  · exact (Prod.mk.inj halloc).2.symm
  · simp only at halloc
    split at halloc
    · exact (Prod.mk.inj halloc).2.symm
    · next p hp =>
      rw [← (Prod.mk.inj halloc).1, hp] at hnone
      cases hnone

theorem osPrimAlloc_some {p : ℕ}
    (halloc : osPrimAlloc os size tryAlignment commit allowLarge st =
      (answer, st')) (hsome : answer.ptr = some p) :
    OsGiven os st st' p size := by
  unfold osPrimAlloc at halloc
  split at halloc
  · rw [← (Prod.mk.inj halloc).1] at hsome
    cases hsome
  · simp only at halloc
    split at halloc
    · next hnone =>
      rw [← (Prod.mk.inj halloc).1, hnone] at hsome
      cases hsome
    · next q hq =>
      rw [← (Prod.mk.inj halloc).1, hq] at hsome
      obtain rfl := Option.some.inj hsome
      obtain ⟨hpos, hpage, hfits, hfresh⟩ := os.gives _ _ _ _ _ _ hq
      exact ⟨hpos, hpage, hfits, hfresh, by rw [← (Prod.mk.inj halloc).2]⟩

theorem primFree_calls {addr commitSize : ℕ} (hpos : 0 < addr) :
    (st.primFree addr size commitSize).calls = .free addr size :: st.calls := by
  rw [OsState.primFree, if_neg (by omega)]

theorem window_of_given {p : ℕ} (halign : 0 < alignment)
    (hfits : p + (size + alignment) ≤ wordSize) :
    ∃ pre, wordAlignUp p alignment = p + pre ∧ pre < alignment ∧
      alignment ∣ p + pre := by
  have hle := @le_exactAlignUp p _ halign
  have hlt := @exactAlignUp_lt p _ halign
  have hexact : wordAlignUp p alignment = exactAlignUp p alignment :=
    wordAlignUp_of_lt (by omega)
  refine ⟨exactAlignUp p alignment - p, ?_, by omega, ?_⟩
  · rw [hexact]
    omega
  · have hsum : p + (exactAlignUp p alignment - p) =
        exactAlignUp p alignment := by omega
    rw [hsum]
    exact dvd_exactAlignUp p alignment

theorem wordSub_of_le {a b : ℕ} (hle : b ≤ a) (hlt : a < b + wordSize) :
    wordSub a b = a - b := by
  unfold wordSub
  have hsum : wordSize + a - b = a - b + wordSize := by omega
  rw [hsum, Nat.add_mod_right, Nat.mod_eq_of_lt (by omega)]

end

/-! ## The outcomes -/

/-- The frees of what lies around a window, as far as it is not empty. -/
def freeCalls (addr size : ℕ) : List OsMemCall :=
  if 0 < size then [.free addr size] else []

def AlignedDirect (os : OsSystem) (size : ℕ) (st st' : OsState)
    (r : AlignedAlloc) : Prop :=
  r.base = r.ptr ∧ st'.calls = .alloc r.ptr size :: st.calls ∧
    Disjoint (os.owned st.calls) (Set.Ico r.ptr (r.ptr + size)) ∧
    os.owned st'.calls = os.owned st.calls ∪ Set.Ico r.ptr (r.ptr + size)

/-- What lies before and after the window is freed: with the window it is the
whole over-allocation. -/
def AlignedTrimmed (os : OsSystem) (size alignment : ℕ) (st st' : OsState)
    (r : AlignedAlloc) : Prop :=
  ∃ q pre post before, r.ptr = q + pre ∧
    pre + size + post = size + alignment ∧ r.base = r.ptr ∧
    st'.calls = freeCalls (q + pre + size) post ++
      (freeCalls q pre ++ .alloc q (size + alignment) :: before) ∧
    os.owned before = os.owned st.calls ∧
    Disjoint (os.owned st.calls) (Set.Ico q (q + (size + alignment))) ∧
    os.owned st'.calls = os.owned st.calls ∪ Set.Ico r.ptr (r.ptr + size)

def AlignedInside (os : OsSystem) (size alignment : ℕ) (st st' : OsState)
    (r : AlignedAlloc) : Prop :=
  ∃ before, st'.calls = .alloc r.base (size + alignment) :: before ∧
    os.owned before = os.owned st.calls ∧
    r.base ≤ r.ptr ∧ r.ptr + size ≤ r.base + (size + alignment) ∧
    Disjoint (os.owned st.calls)
      (Set.Ico r.base (r.base + (size + alignment))) ∧
    os.owned st'.calls = os.owned st.calls ∪
      Set.Ico r.base (r.base + (size + alignment))

structure AlignedWindow (os : OsSystem) (size alignment : ℕ)
    (st st' : OsState) (r : AlignedAlloc) : Prop where
  base_pos : 0 < r.base
  aligned : alignment ∣ r.ptr
  fits : r.ptr + size ≤ wordSize
  owned : Set.Ico r.ptr (r.ptr + size) ⊆ os.owned st'.calls
  how : AlignedDirect os size st st' r ∨
    size + alignment < wordSize ∧
      if os.hasPartialFree then AlignedTrimmed os size alignment st st' r
      else AlignedInside os size alignment st st' r

/-- No result leaves what is owned as it was; a result has the property. -/
def NothingOr (os : OsSystem) (st st' : OsState)
    (property : AlignedAlloc → Prop) : Option AlignedAlloc → Prop
  | none => os.owned st'.calls = os.owned st.calls
  | some r => property r

theorem owned_freeCalls {os : OsSystem} {addr size : ℕ}
    (calls : List OsMemCall) (hpart : os.hasPartialFree = true) :
    os.owned (freeCalls addr size ++ calls) =
      os.owned (.free addr size :: calls) := by
  unfold freeCalls
  split
  · rfl
  · next hzero =>
    obtain rfl : size = 0 := by omega
    rw [OsSystem.owned_partial_free hpart (dvd_zero _)]
    simp

section

variable {os : OsSystem} {size alignment : ℕ} {commit : Bool}
  {st st' : OsState}

theorem primFree_freeCalls {addr commitSize : ℕ} (hpos : 0 < addr) :
    (if 0 < size then st.primFree addr size commitSize else st).calls =
      freeCalls addr size ++ st.calls := by
  unfold freeCalls
  split
  · exact primFree_calls hpos
  · rfl

theorem osPrimAllocTrimmed_spec {result : Option AlignedAlloc}
    (hpart : os.hasPartialFree = true) (halign : 0 < alignment)
    (hpageSize : os.pageSize ∣ size) (hpageAlign : os.pageSize ∣ alignment)
    (hover : size + alignment < wordSize)
    (halloc : osPrimAllocTrimmed os size alignment (size + alignment) commit
      st = (result, st')) :
    NothingOr os st st' (fun r => 0 < r.base ∧ alignment ∣ r.ptr ∧
      r.ptr + size ≤ wordSize ∧ AlignedTrimmed os size alignment st st' r)
      result := by
  unfold osPrimAllocTrimmed at halloc
  cases hprim : osPrimAlloc os (size + alignment) 1 commit false st with
  | mk answer mid =>
    rw [hprim] at halloc
    cases hptr : answer.ptr with
    | none =>
      simp only [hptr] at halloc
      obtain ⟨rfl, rfl⟩ := Prod.mk.inj halloc
      rw [NothingOr, osPrimAlloc_none hprim hptr]
    | some q =>
      simp only [hptr] at halloc
      have hgiven := osPrimAlloc_some hprim hptr
      have hpos := hgiven.pos
      have hfits := hgiven.fits
      obtain ⟨pre, hwindow, hpre, hdvd⟩ := window_of_given halign hfits
      have hpage := os.pageSize_pos
      have hpageLe := Nat.le_of_dvd halign hpageAlign
      have hmid : wordAlignUp size os.pageSize = size := by
        rw [wordAlignUp_of_lt (by omega), exactAlignUp_of_dvd hpage hpageSize]
      have hpreSub : wordSub (q + pre) q = pre := by
        rw [wordSub_of_le (by omega) (by omega), Nat.add_sub_cancel_left]
      have hrest : wordSub (size + alignment) pre = size + alignment - pre :=
        wordSub_of_le (by omega) (by omega)
      have hpost : wordSub (size + alignment - pre) size = alignment - pre := by
        rw [wordSub_of_le (by omega) (by omega)]
        omega
      have hend : (q + pre + size) % wordSize = q + pre + size :=
        Nat.mod_eq_of_lt (by omega)
      rw [hwindow, hmid, hpreSub, hrest, hpost, hend] at halloc
      obtain ⟨rfl, rfl⟩ := Prod.mk.inj halloc
      have hcalls : ∀ x y : ℕ,
          (if 0 < alignment - pre then
            (if 0 < pre then mid.primFree q pre x else mid).primFree
              (q + pre + size) (alignment - pre) y
          else if 0 < pre then mid.primFree q pre x else mid).calls =
            freeCalls (q + pre + size) (alignment - pre) ++
              (freeCalls q pre ++
                .alloc q (size + alignment) :: st.calls) := by
        intro x y
        rw [primFree_freeCalls (by omega), primFree_freeCalls hpos,
          hgiven.calls]
      have hsum : pre + size + (alignment - pre) = size + alignment := by
        omega
      have hpagePre : os.pageSize ∣ pre :=
        (Nat.dvd_add_right hgiven.page).mp (hpageAlign.trans hdvd)
      have hpagePost : os.pageSize ∣ alignment - pre :=
        Nat.dvd_sub hpageAlign hpagePre
      have hfitsWindow : q + pre + size ≤ wordSize := by omega
      refine ⟨Nat.add_pos_left hpos pre, hdvd, hfitsWindow, q, pre,
        alignment - pre, st.calls, rfl, hsum, rfl, hcalls _ _, rfl,
        hgiven.fresh, ?_⟩
      rw [hcalls, owned_freeCalls _ hpart,
        OsSystem.owned_partial_free hpart hpagePost,
        owned_freeCalls _ hpart,
        ← OsSystem.owned_partial_free hpart hpagePost, ← hsum]
      exact OsSystem.owned_trimmed hpart hpagePre hpagePost
        (hsum ▸ hgiven.fresh)

theorem osPrimAllocInside_spec {result : Option AlignedAlloc}
    (halign : 0 < alignment) (hpageSize : os.pageSize ∣ size)
    (hpageAlign : os.pageSize ∣ alignment)
    (halloc : osPrimAllocInside os size alignment (size + alignment) commit
      st = (result, st')) :
    NothingOr os st st' (fun r => 0 < r.base ∧ alignment ∣ r.ptr ∧
      r.ptr + size ≤ wordSize ∧ AlignedInside os size alignment st st' r)
      result := by
  unfold osPrimAllocInside at halloc
  cases hprim : osPrimAlloc os (size + alignment) 1 false false st with
  | mk answer mid =>
    rw [hprim] at halloc
    cases hptr : answer.ptr with
    | none =>
      simp only [hptr] at halloc
      obtain ⟨rfl, rfl⟩ := Prod.mk.inj halloc
      rw [NothingOr, osPrimAlloc_none hprim hptr]
    | some q =>
      simp only [hptr] at halloc
      have hgiven := osPrimAlloc_some hprim hptr
      have hfits := hgiven.fits
      obtain ⟨pre, hwindow, hpre, hdvd⟩ := window_of_given halign hfits
      rw [hwindow] at halloc
      have hinside : ∀ st'' : OsState, st''.calls = mid.calls →
          0 < q ∧ alignment ∣ q + pre ∧ q + pre + size ≤ wordSize ∧
            AlignedInside os size alignment st st''
              ⟨q + pre, q, answer.isLarge, answer.isZero⟩ := by
        intro st'' hcalls
        refine ⟨hgiven.pos, hdvd, by omega, st.calls,
          hcalls.trans hgiven.calls, rfl, Nat.le_add_right _ _, ?_,
          hgiven.fresh, ?_⟩
        · change q + pre + size ≤ q + (size + alignment)
          omega
        · rw [hcalls, hgiven.calls]
          exact os.owned_alloc _ _ _
      split at halloc
      · split at halloc
        · obtain ⟨rfl, rfl⟩ := Prod.mk.inj halloc
          exact hinside _ rfl
        · obtain ⟨rfl, rfl⟩ := Prod.mk.inj halloc
          rw [NothingOr, primFree_calls hgiven.pos, hgiven.calls]
          exact OsSystem.owned_free_alloc (Nat.dvd_add hpageSize hpageAlign)
            hgiven.fresh
      · obtain ⟨rfl, rfl⟩ := Prod.mk.inj halloc
        exact hinside _ rfl

/-- What was there before the over-allocation is what was there before the
first attempt. -/
theorem AlignedTrimmed.of_owned_eq {st₀ : OsState} {r : AlignedAlloc}
    (hsame : os.owned st.calls = os.owned st₀.calls)
    (htrimmed : AlignedTrimmed os size alignment st st' r) :
    AlignedTrimmed os size alignment st₀ st' r := by
  unfold AlignedTrimmed at *
  rwa [hsame] at htrimmed

theorem AlignedInside.of_owned_eq {st₀ : OsState} {r : AlignedAlloc}
    (hsame : os.owned st.calls = os.owned st₀.calls)
    (hinside : AlignedInside os size alignment st st' r) :
    AlignedInside os size alignment st₀ st' r := by
  unfold AlignedInside at *
  rwa [hsame] at hinside

theorem pageSize_dvd_alignment (hle : os.pageSize ≤ alignment)
    (hpow : alignment &&& (alignment - 1) = 0) :
    os.pageSize ∣ alignment := by
  have hpos := os.pageSize_pos.trans_le hle
  obtain ⟨k, rfl⟩ := exists_pow_of_and_pred hpos hpow
  exact Nat.pow_dvd_pow 2 ((Nat.pow_le_pow_iff_right (by decide)).mp hle)

/-- A size that is rounded to zero is not allocated. -/
theorem le_wordAlignUp_of_given {p : ℕ} {tryAlignment : ℕ} {allowLarge : Bool}
    {answer : OsPrimAnswer} (hsize : size < wordSize)
    (hpage : os.pageSize ≤ wordSize)
    (halloc : osPrimAlloc os (wordAlignUp size os.pageSize) tryAlignment commit
      allowLarge st = (answer, st')) (hsome : answer.ptr = some p) :
    size ≤ wordAlignUp size os.pageSize := by
  by_cases hwrap : wordSize ≤ size + os.pageSize - 1
  · rw [wordAlignUp_of_wrap hsize hpage hwrap, osPrimAlloc, if_pos rfl]
      at halloc
    rw [← (Prod.mk.inj halloc).1] at hsome
    cases hsome
  · rw [wordAlignUp_of_lt (by omega)]
    exact le_exactAlignUp os.pageSize_pos

theorem osPrimAllocAligned_spec {allowLarge : Bool}
    {result : Option AlignedAlloc} (hsize : size < wordSize)
    (halign : alignment < wordSize)
    (halloc : osPrimAllocAligned os size alignment commit allowLarge st =
      (result, st')) :
    NothingOr os st st' (fun r =>
      size ≤ wordAlignUp size os.pageSize ∧
        AlignedWindow os (wordAlignUp size os.pageSize) alignment st st' r)
      result := by
  unfold osPrimAllocAligned at halloc
  split at halloc
  · obtain ⟨rfl, rfl⟩ := Prod.mk.inj halloc
    rfl
  · next hvalid =>
    obtain ⟨hle, hpow⟩ := not_not.mp hvalid
    have hpos := os.pageSize_pos.trans_le hle
    have hpageAlign := pageSize_dvd_alignment hle hpow
    have hpageSize := dvd_wordAlignUp size os.pageSize
    cases hprim : osPrimAlloc os (wordAlignUp size os.pageSize) alignment
        commit allowLarge st with
    | mk answer mid =>
      simp only [hprim] at halloc
      cases hptr : answer.ptr with
      | none =>
        simp only [hptr] at halloc
        obtain ⟨rfl, rfl⟩ := Prod.mk.inj halloc
        rw [NothingOr, osPrimAlloc_none hprim hptr]
      | some p =>
        simp only [hptr] at halloc
        have hgiven := osPrimAlloc_some hprim hptr
        have hrounded := le_wordAlignUp_of_given hsize
          (hle.trans halign.le) hprim hptr
        split at halloc
        · next haligned =>
          obtain ⟨rfl, rfl⟩ := Prod.mk.inj halloc
          have howned := os.owned_alloc st.calls p
            (wordAlignUp size os.pageSize)
          rw [← hgiven.calls] at howned
          exact ⟨hrounded, hgiven.pos, Nat.dvd_of_mod_eq_zero haligned,
            hgiven.fits, howned ▸ Set.subset_union_right,
            Or.inl ⟨rfl, hgiven.calls, hgiven.fresh, howned⟩⟩
        · -- The memory is freed, and the second attempt starts from there.
          have hfreed : ∀ c, os.owned (mid.primFree p
              (wordAlignUp size os.pageSize) c).calls = os.owned st.calls := by
            intro c
            rw [primFree_calls hgiven.pos, hgiven.calls]
            exact OsSystem.owned_free_alloc hpageSize hgiven.fresh
          split at halloc
          · obtain ⟨rfl, rfl⟩ := Prod.mk.inj halloc
            exact hfreed _
          · next hnowrap =>
            have hover : wordAlignUp size os.pageSize + alignment <
                wordSize := by
              have hmax : maxWord < wordSize := by decide
              omega
            rw [Nat.mod_eq_of_lt hover] at halloc
            split at halloc
            · next hpart =>
              have hspec := osPrimAllocTrimmed_spec hpart hpos hpageSize
                hpageAlign hover halloc
              cases result with
              | none => exact hspec.trans (hfreed _)
              | some r =>
                obtain ⟨hbase, hdvd, hfits, htrimmed⟩ := hspec
                have htrimmed := htrimmed.of_owned_eq (hfreed _)
                obtain ⟨_, _, _, _, _, _, _, _, _, _, hset⟩ := id htrimmed
                refine ⟨hrounded, hbase, hdvd, hfits,
                  hset ▸ Set.subset_union_right, Or.inr ⟨hover, ?_⟩⟩
                rw [if_pos hpart]
                exact htrimmed
            · next hwhole =>
              have hspec := osPrimAllocInside_spec hpos hpageSize hpageAlign
                halloc
              cases result with
              | none => exact hspec.trans (hfreed _)
              | some r =>
                obtain ⟨hbasePos, hdvd, hfits, hinside⟩ := hspec
                have hinside := hinside.of_owned_eq (hfreed _)
                obtain ⟨_, _, _, hbase, hend, _, hset⟩ := id hinside
                refine ⟨hrounded, hbasePos, hdvd, hfits, ?_,
                  Or.inr ⟨hover, ?_⟩⟩
                · rw [hset]
                  exact (Set.Ico_subset_Ico hbase hend).trans
                    Set.subset_union_right
                · rw [if_neg hwhole]
                  exact hinside

/-! ## Freeing by the memory id -/

theorem osFree_calls {memid : OsMemid} (hkind : memid.memkind = .os)
    (hbase : 0 < memid.base) (hsize : memid.size ≠ 0) (addr : ℕ) :
    (st.osFree os addr size memid).calls =
      .free memid.base memid.size :: st.calls := by
  have hos : memkindIsOs memid.memkind = true := by simp [hkind, memkindIsOs]
  unfold OsState.osFree osFreeRange
  by_cases heq : memid.base = addr
  · subst heq
    simp only [hos, if_true, ne_eq, not_true, if_false, if_neg hsize]
    exact primFree_calls hbase
  · simp only [hos, if_true, ne_eq, heq, not_false_iff, if_neg hsize]
    exact primFree_calls hbase

theorem osGoodAllocSize_lt (hsize : size < wordSize) :
    osGoodAllocSize ⟨os.pageSize, 0⟩ size < wordSize := by
  have hword : wordSize = 2 ^ 64 := rfl
  have hround : ∀ alignSize, 0 < alignSize →
      (if 2 ^ 64 - 1 - alignSize ≤ size then size
        else alignUp size alignSize) < wordSize := by
    intro alignSize halign
    split
    · exact hsize
    · have hlt := @alignUp_lt size _ halign
      omega
  apply hround
  split
  · exact os.pageSize_pos
  · split
    · decide
    · split
      · decide
      · split <;> decide

/-- Freeing a window by its base and a size that reaches to the end of the
window leaves what was owned before. -/
theorem owned_free_window {r : AlignedAlloc} {bytes : ℕ}
    (hwindow : AlignedWindow os (wordAlignUp bytes os.pageSize) alignment
      st st' r)
    (hnowrap : wordAlignUp bytes os.pageSize =
      exactAlignUp bytes os.pageSize) :
    os.owned (.free r.base (bytes + (r.ptr - r.base)) :: st'.calls) =
      os.owned st.calls := by
  have hremove : r.base = r.ptr →
      Disjoint (os.owned st.calls)
        (Set.Ico r.ptr (r.ptr + wordAlignUp bytes os.pageSize)) →
      (os.hasPartialFree = false →
        allocationSize st'.calls r.ptr = wordAlignUp bytes os.pageSize) →
      os.owned st'.calls = os.owned st.calls ∪
        Set.Ico r.ptr (r.ptr + wordAlignUp bytes os.pageSize) →
      os.owned (.free r.base (bytes + (r.ptr - r.base)) :: st'.calls) =
        os.owned st.calls := by
    intro hbase hfresh hsize hset
    have hrange : os.owned (.free r.base (bytes + (r.ptr - r.base)) ::
        st'.calls) = os.owned st'.calls \
          Set.Ico r.ptr (r.ptr + wordAlignUp bytes os.pageSize) := by
      rw [hbase, Nat.sub_self, Nat.add_zero, OsSystem.owned, OsSystem.owned,
        ownedBytes]
      cases hpart : os.hasPartialFree with
      | true => rw [if_pos rfl, ← hnowrap]
      | false => rw [if_neg (by decide), hsize hpart]
    rw [hrange, hset, Set.union_sdiff_right]
    exact hfresh.sdiff_eq_left
  rcases hwindow.how with hdirect | ⟨_, hother⟩
  · obtain ⟨hbase, hcalls, hfresh, hset⟩ := hdirect
    exact hremove hbase hfresh
      (fun _ => by simp [hcalls, allocationSize]) hset
  · split at hother
    · next hpart =>
      obtain ⟨q, pre, post, _, hptr, hsum, hbase, _, _, hfresh, hset⟩ := hother
      refine hremove hbase (hfresh.mono_right ?_)
        (fun hwhole => absurd hpart (by simp [hwhole])) hset
      apply Set.Ico_subset_Ico <;> omega
    · next hwhole =>
      obtain ⟨before, hcalls, _, _, _, hfresh, hset⟩ := hother
      have hpart : os.hasPartialFree = false := by simpa using hwhole
      have hrange : os.owned (.free r.base (bytes + (r.ptr - r.base)) ::
          st'.calls) = os.owned st'.calls \ Set.Ico r.base (r.base +
            (wordAlignUp bytes os.pageSize + alignment)) := by
        rw [OsSystem.owned, OsSystem.owned, ownedBytes, hpart,
          if_neg (by decide), hcalls, allocationSize, if_pos rfl]
      rw [hrange, hset, Set.union_sdiff_right]
      exact hfresh.sdiff_eq_left

theorem base_le_ptr {r : AlignedAlloc}
    (hwindow : AlignedWindow os size alignment st st' r) :
    r.base ≤ r.ptr ∧ r.ptr - r.base + size < wordSize := by
  have hpos := hwindow.base_pos
  have hfits := hwindow.fits
  rcases hwindow.how with hdirect | ⟨hover, hother⟩
  · have hbase := hdirect.1
    omega
  · split at hother
    · obtain ⟨_, _, _, _, _, _, hbase, _⟩ := hother
      omega
    · obtain ⟨_, _, _, hbase, hend, _⟩ := hother
      omega

/-- `_pa_os_alloc_aligned` gives a window that is owned, and `_pa_os_free` with
the memory id gives back all that was taken for it. -/
theorem osAllocAligned_spec {allowLarge : Bool} {p : ℕ} {memid : OsMemid}
    (hsize : size < wordSize)
    (halloc : osAllocAligned os size alignment commit allowLarge st =
      (some (p, memid), st')) :
    wordAlignUp alignment os.pageSize ∣ p ∧
      Set.Ico p (p + size) ⊆ os.owned st'.calls ∧
      os.owned (st'.osFree os p size memid).calls = os.owned st.calls := by
  unfold osAllocAligned at halloc
  split at halloc
  · cases halloc
  · next hzero =>
    simp only at halloc
    cases hprim : osPrimAllocAligned os (osGoodAllocSize ⟨os.pageSize, 0⟩ size)
        (wordAlignUp alignment os.pageSize) commit allowLarge st with
    | mk result mid =>
      have hgood :=
        @le_osGoodAllocSize ⟨os.pageSize, 0⟩ os.pageSize_pos size
      have hlt := @osGoodAllocSize_lt os size hsize
      have hspec := osPrimAllocAligned_spec hlt wordAlignUp_lt_wordSize hprim
      rw [hprim] at halloc
      cases result with
      | none => cases halloc
      | some r =>
        obtain ⟨hrounded, hwindow⟩ := hspec
        obtain ⟨hresult, rfl⟩ := Prod.mk.inj halloc
        obtain ⟨rfl, rfl⟩ := Prod.mk.inj (Option.some.inj hresult)
        obtain ⟨hbase, hdiff⟩ := base_le_ptr hwindow
        have hptr := hwindow.fits
        have hpage : os.pageSize ≤ wordSize := by
          by_contra hlarge
          have hmod : (osGoodAllocSize ⟨os.pageSize, 0⟩ size + os.pageSize -
              1) % wordSize < os.pageSize :=
            (Nat.mod_lt _ (by decide)).trans (not_le.mp hlarge)
          rw [wordAlignUp, Nat.div_eq_of_lt hmod] at hrounded
          omega
        have hnowrap := wordAlignUp_eq_exact (by omega) hlt hpage hrounded
        have hsub : wordSub r.ptr r.base = r.ptr - r.base :=
          wordSub_of_le hbase (by omega)
        have hmemid : (osGoodAllocSize ⟨os.pageSize, 0⟩ size +
            wordSub r.ptr r.base) % wordSize =
            osGoodAllocSize ⟨os.pageSize, 0⟩ size + (r.ptr - r.base) := by
          rw [hsub]
          exact Nat.mod_eq_of_lt (by omega)
        refine ⟨hwindow.aligned, ?_, ?_⟩
        · apply (Set.Ico_subset_Ico_right _).trans hwindow.owned
          omega
        · rw [osFree_calls]
          · simp only [OsMemid.createOs, hmemid]
            exact owned_free_window hwindow hnowrap
          · rfl
          · exact hwindow.base_pos
          · simp only [OsMemid.createOs, hmemid]
            omega

end

/-- Every result of `pa_os_prim_alloc_aligned` is an aligned window that is
still owned, the parts that are freed and the window are the over-allocation,
and freeing by the memory id gives back all that was taken. -/
theorem os_alloc_aligned_window (os : OsSystem) (size alignment : Word)
    (commit allowLarge : Bool) (st : OsState) :
    (∀ result st',
      osPrimAllocAligned os size.val alignment.val commit allowLarge st =
        (result, st') →
      NothingOr os st st' (fun r =>
        size.val ≤ wordAlignUp size.val os.pageSize ∧
          AlignedWindow os (wordAlignUp size.val os.pageSize) alignment.val
            st st' r) result) ∧
      ∀ p memid st',
        osAllocAligned os size.val alignment.val commit allowLarge st =
          (some (p, memid), st') →
        wordAlignUp alignment.val os.pageSize ∣ p ∧
          Set.Ico p (p + size.val) ⊆ os.owned st'.calls ∧
          os.owned (st'.osFree os p size.val memid).calls =
            os.owned st.calls :=
  ⟨fun _ _ halloc => osPrimAllocAligned_spec size.isLt alignment.isLt halloc,
    fun _ _ _ halloc => osAllocAligned_spec size.isLt halloc⟩

def nextPage : List OsMemCall → ℕ
  | [] => 4096
  | .alloc addr size :: calls =>
      max (nextPage calls) (exactAlignUp (addr + size) 4096)
  | .free _ _ :: calls => nextPage calls

theorem nextPage_spec (calls : List OsMemCall) :
    0 < nextPage calls ∧ 4096 ∣ nextPage calls := by
  induction calls with
  | nil => exact ⟨by decide, dvd_rfl⟩
  | cons call calls ih =>
      cases call with
      | alloc addr size =>
          refine ⟨lt_max_of_lt_left ih.1, ?_⟩
          rcases max_choice (nextPage calls)
            (exactAlignUp (addr + size) 4096) with h | h
          · rw [nextPage, h]
            exact ih.2
          · rw [nextPage, h]
            exact Nat.dvd_mul_left _ _
      | free addr size => exact ih

theorem ownedBytes_lt_nextPage (partialFree : Bool) (pageSize : ℕ)
    (calls : List OsMemCall) :
    ∀ x ∈ ownedBytes partialFree pageSize calls, x < nextPage calls := by
  induction calls with
  | nil => exact fun x hx => hx.elim
  | cons call calls ih =>
      intro x hx
      cases call with
      | alloc addr size =>
          rcases hx with hx | hx
          · exact lt_max_of_lt_left (ih x hx)
          · have hle : addr + size ≤ exactAlignUp (addr + size) 4096 := by
              unfold exactAlignUp
              omega
            exact lt_max_of_lt_right (hx.2.trans_le hle)
      | free addr size => exact ih x hx.1

/-- A system that gives the pages behind all that it gave before. -/
def risingOs : OsSystem where
  pageShift := 12
  hasPartialFree := true
  alloc calls size _ _ _ :=
    ⟨if nextPage calls + size ≤ wordSize then some (nextPage calls) else none,
      false, true⟩
  commit _ _ _ := true
  gives calls size _ _ _ p hp := by
    dsimp only at hp
    split at hp
    · rename_i hfits
      cases hp
      refine ⟨(nextPage_spec calls).1, (nextPage_spec calls).2, hfits, ?_⟩
      rw [Set.disjoint_left]
      intro x hx hrange
      exact absurd hrange.1
        (not_le.mpr (ownedBytes_lt_nextPage _ _ calls x hx))
    · cases hp

/-- The first page is not aligned, and a window in a larger allocation is. -/
theorem os_alloc_aligned_window_trimmed :
    ∃ memid st', osAllocAligned risingOs 8192 65536 true false ⟨[], 0, 0⟩ =
        (some (65536, memid), st') ∧
      Set.Ico 65536 73728 ⊆ risingOs.owned st'.calls ∧
      risingOs.owned (st'.osFree risingOs 65536 8192 memid).calls =
        risingOs.owned [] := by
  have hptr : (osAllocAligned risingOs 8192 65536 true false
      ⟨[], 0, 0⟩).1.map Prod.fst = some 65536 := by decide +kernel
  obtain ⟨⟨p, memid⟩, hresult, hp⟩ := Option.map_eq_some_iff.mp hptr
  subst hp
  have hrun : osAllocAligned risingOs 8192 65536 true false ⟨[], 0, 0⟩ =
      (some (65536, memid), (osAllocAligned risingOs 8192 65536 true false
        ⟨[], 0, 0⟩).2) := Prod.ext hresult rfl
  have h := (os_alloc_aligned_window risingOs 8192 65536 true false
    ⟨[], 0, 0⟩).2 _ _ _ hrun
  exact ⟨memid, _, hrun, h.2⟩

end Palloc
