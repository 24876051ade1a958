import Palloc.PagePartition
import Palloc.Bitmap
import Palloc.BitScan
import Palloc.FastDivide

/-!
# Walking the blocks of a page

`_pa_heap_area_visit_blocks` calls a visitor for the blocks of a page that are
in use.  The free blocks are known only as a list, in any order, so the walk
first marks them in a bitmap on the stack, with the indices from a fast
division, and then goes through the words of the bitmap.  A page of one block
and a page without free blocks need no bitmap.

A visitor may answer by everything it has seen, so it is a function of the
calls before and the call at hand.
-/

namespace Palloc

open LinkedChain BitFields

/-! ## The source -/

abbrev VisitCall := Addr × ℕ

abbrev Visitor := List VisitCall → VisitCall → Bool

/-- `PA_MAX_BLOCKS / PA_INTPTR_BITS`: the words of the bitmap. -/
def freeMapWords : ℕ := smallPageSize / intptrSize / 64

section Walk

variable (visitor : Visitor) (bsize ubsize : ℕ)

/-- The loop over `left` blocks that are all in use. -/
def visitAll : (left : ℕ) → (block : Addr) → List VisitCall →
    Bool × List VisitCall
  | 0, _, calls => (true, calls)
  | left + 1, block, calls =>
      if visitor calls (block, ubsize) then
        visitAll left (block + bsize) (calls ++ [(block, ubsize)])
      else (false, calls ++ [(block, ubsize)])

/-- The loop over the bits of the mask `m` of a word. -/
def visitMask (block : Addr) : (fuel : ℕ) → (m : BitVec 64) →
    List VisitCall → Option (Bool × List VisitCall)
  | 0, _, _ => none
  | fuel + 1, m, calls =>
      if m = 0#64 then some (true, calls)
      else
        let bitidx := m.ctz.toNat
        let call := (block + bitidx * bsize, ubsize)
        if visitor calls call then
          visitMask block fuel (m &&& (m - 1#64)) (calls ++ [call])
        else some (false, calls ++ [call])

/-- The loop over the words of the bitmap from `i` on. -/
def visitWords (freeMap : Fields) : (left i : ℕ) → (block : Addr) →
    List VisitCall → Option (Bool × List VisitCall)
  | 0, _, _, calls => some (true, calls)
  | left + 1, i, block, calls =>
      let result :=
        if freeMap i = 0#64 then
          some (visitAll visitor bsize ubsize 64 block calls)
        else visitMask visitor bsize ubsize block 65 (~~~freeMap i) calls
      match result with
      | none => none
      | some (false, calls) => some (false, calls)
      | some (true, calls) =>
          visitWords freeMap left (i + 1) (block + bsize * 64) calls

end Walk

/-- The loop that marks the free blocks; `none` behind the end of the
bitmap. -/
def markFree (links : Addr → Option Addr) (pstart : Addr)
    (magic : BitVec 64) (shift : ℕ) :
    (fuel : ℕ) → (block : Option Addr) → Fields → Option Fields
  | 0, _, _ => none
  | _ + 1, none, freeMap => some freeMap
  | fuel + 1, some block, freeMap =>
      let offset := BitVec.ofNat 64 (block - pstart)
      let blockidx := (fastDivide offset magic shift).toNat
      let bitidx := blockidx / 64
      let bit := blockidx - bitidx * 64
      if bitidx < freeMapWords then
        markFree links pstart magic shift fuel (links block)
          (Function.update freeMap bitidx
            (freeMap bitidx ||| (1#64 <<< bit)))
      else none

/-- The bitmap before the free blocks are marked: the bits behind the last
block are set.  `stack` is what the array held before. -/
def initFreeMap (stack : Fields) (capacity : ℕ) : Fields :=
  let bmapsize := divideUp capacity 64
  let freeMap : Fields := fun i => if i < bmapsize then 0#64 else stack i
  if capacity % 64 ≠ 0 then
    Function.update freeMap (bmapsize - 1)
      (BitVec.allOnes 64 <<< (capacity % 64))
  else freeMap

/-- `_pa_heap_area_visit_blocks` with a non-null area and page: the result,
the calls of the visitor and the page.  `none` when the fuel runs out, or when
the bitmap is too small. -/
def heapAreaVisitBlocks (cfg : Config) (visitor : Visitor) (stack : Fields)
    (fuel segment idx : ℕ) (page : PageFields) :
    Option (Bool × List VisitCall × PageFields) :=
  match pageFreeCollect page true with
  | none => none
  | some page =>
      if page.used = 0 then some (true, [], page)
      else
        let pstart := (segmentPageStartFromSlice segment idx page.sliceCount
          page.blockSize).1
        let bsize := page.blockSize
        let ubsize := pageUsableBlockSize cfg page
        if page.capacity = 1 then
          some (visitor [] (pstart, ubsize), [(pstart, ubsize)], page)
        else if page.used = page.capacity then
          let result := visitAll visitor bsize ubsize page.capacity pstart []
          some (result.1, result.2, page)
        else
          let bmapsize := divideUp page.capacity 64
          if freeMapWords < bmapsize then none
          else
            let divisor := getFastDivisor (BitVec.ofNat 64 bsize)
            match markFree page.links pstart divisor.1 divisor.2 fuel page.free
              (initFreeMap stack page.capacity) with
            | none => none
            | some freeMap =>
                (visitWords visitor bsize ubsize freeMap bmapsize 0 pstart
                  []).map fun result => (result.1, result.2, page)

/-! ## Visiting a list of calls -/

/-- Call the visitor for each element of a list, until it refuses. -/
def visitUntil (visitor : Visitor) :
    List VisitCall → List VisitCall → Bool × List VisitCall
  | [], calls => (true, calls)
  | call :: rest, calls =>
      if visitor calls call then visitUntil visitor rest (calls ++ [call])
      else (false, calls ++ [call])

variable {visitor : Visitor} {bsize ubsize : ℕ}

theorem visitUntil_append (l l' calls : List VisitCall) :
    visitUntil visitor (l ++ l') calls =
      if (visitUntil visitor l calls).1 then
        visitUntil visitor l' (visitUntil visitor l calls).2
      else visitUntil visitor l calls := by
  induction l generalizing calls with
  | nil => rfl
  | cons call rest ih =>
      rw [List.cons_append, visitUntil, visitUntil]
      split
      · exact ih _
      · rfl

structure Visited (visitor : Visitor) (l : List VisitCall) (ok : Bool)
    (calls : List VisitCall) : Prop where
  isPrefix : calls <+: l
  accepted : ∀ before call after, calls = before ++ call :: after →
    after ≠ [] ∨ ok = true → visitor before call = true
  complete : ok = true → calls = l
  refused : ok = false →
    ∃ before call, calls = before ++ [call] ∧ visitor before call = false

theorem visitUntil_visited (l calls : List VisitCall) :
    ∃ new, (visitUntil visitor l calls).2 = calls ++ new ∧
      Visited (fun before => visitor (calls ++ before)) l
        (visitUntil visitor l calls).1 new := by
  induction l generalizing calls with
  | nil =>
      refine ⟨[], by simp [visitUntil], ⟨List.prefix_rfl, ?_, ?_, ?_⟩⟩
      · intro before call after hnil
        simp at hnil
      · intro _
        rfl
      · intro hfalse
        cases hfalse
  | cons call rest ih =>
      unfold visitUntil
      cases hanswer : visitor calls call with
      | false =>
          simp only [Bool.false_eq_true, if_false]
          refine ⟨[call], rfl, ⟨by simp, ?_, ?_, ?_⟩⟩
          · intro before other after hsplit hmore
            exfalso
            cases before with
            | nil =>
                have hnil : after = [] := by
                  simpa using (List.cons.inj hsplit).2.symm
                simp [hnil] at hmore
            | cons first others => simp at hsplit
          · intro hfalse
            cases hfalse
          · intro _
            exact ⟨[], call, rfl, by simpa using hanswer⟩
      | true =>
          simp only [if_true]
          obtain ⟨new, hcalls, hvisited⟩ := ih (calls ++ [call])
          refine ⟨call :: new, by simp [hcalls], ⟨?_, ?_, ?_, ?_⟩⟩
          · exact List.cons_prefix_cons.mpr ⟨rfl, hvisited.isPrefix⟩
          · intro before other after hsplit hmore
            cases before with
            | nil =>
                have hother : call = other := (List.cons.inj hsplit).1
                rw [← hother]
                simpa using hanswer
            | cons first others =>
                obtain ⟨hfirst, htail⟩ := List.cons.inj hsplit
                have haccepted :=
                  hvisited.accepted others other after htail hmore
                rw [← hfirst]
                simpa using haccepted
          · intro hok
            rw [hvisited.complete hok]
          · intro hrefuse
            obtain ⟨before, last, hnew, hlast⟩ := hvisited.refused hrefuse
            exact ⟨call :: before, last, by simp [hnew], by simpa using hlast⟩

/-! ## The loops of the walk -/

def blockCalls (start bsize ubsize : ℕ) (indices : List ℕ) :
    List VisitCall :=
  indices.map fun b => (start + b * bsize, ubsize)

theorem visitAll_eq (start left i : ℕ) (calls : List VisitCall) :
    visitAll visitor bsize ubsize left (start + i * bsize) calls =
      visitUntil visitor
        (blockCalls start bsize ubsize (List.range' i left)) calls := by
  induction left generalizing i calls with
  | zero => rfl
  | succ left ih =>
      have hnext : start + i * bsize + bsize = start + (i + 1) * bsize := by
        rw [Nat.succ_mul, Nat.add_assoc]
      unfold visitAll
      rw [hnext, ih (i + 1)]
      rfl

theorem visitMask_eq {m : BitVec 64} {fuel p : ℕ} (start i : ℕ)
    (hfuel : 65 ≤ fuel + p) (hp : p ≤ 64)
    (hlow : ∀ j < p, m.getLsbD j = false) (calls : List VisitCall) :
    visitMask visitor bsize ubsize (start + i * bsize) fuel m calls =
      some (visitUntil visitor
        (blockCalls start bsize ubsize
          ((setBits m p).map fun j => i + j)) calls) := by
  induction fuel generalizing m p calls with
  | zero => omega
  | succ fuel ih =>
      unfold visitMask
      by_cases hzero : m = 0#64
      · rw [if_pos hzero, hzero, setBits_zero]
        rfl
      · rw [if_neg hzero, setBits_cons hzero hlow]
        have hbit := BitVec.getLsbD_true_ctz_of_ne_zero hzero
        have hlt : m.ctz.toNat < 64 := BitVec.lt_of_getLsbD hbit
        have hle : p ≤ m.ctz.toNat := by
          by_contra hbelow
          rw [hlow _ (not_le.mp hbelow)] at hbit
          cases hbit
        have hcall : start + i * bsize + m.ctz.toNat * bsize =
            start + (i + m.ctz.toNat) * bsize := by
          rw [Nat.add_mul, Nat.add_assoc]
        have hrest := ih (m := m &&& (m - 1#64)) (p := m.ctz.toNat + 1)
          (by omega) hlt (by
            intro j hj
            rw [getLsbD_and_sub_one hzero]
            by_cases heq : j = m.ctz.toNat
            · rw [decide_eq_false (not_not.mpr heq), Bool.and_false]
            · rw [BitVec.getLsbD_false_of_lt_ctz (by omega), Bool.false_and])
          (calls ++ [(start + (i + m.ctz.toNat) * bsize, ubsize)])
        dsimp only
        rw [hcall, hrest]
        exact (apply_ite some _ _ _).symm

/-- The indices of the blocks that a bitmap does not mark. -/
def clearIndices (freeMap : Fields) (i count : ℕ) : List ℕ :=
  (List.range' i count).filter fun b => !bit freeMap b

theorem clearIndices_word (freeMap : Fields) (i : ℕ) :
    clearIndices freeMap (64 * i) 64 =
      (setBits (~~~freeMap i) 0).map fun j => 64 * i + j := by
  have hrange : List.range' (64 * i) 64 =
      (List.range' 0 (64 - 0)).map fun j => 64 * i + j := by
    rw [List.map_add_range']
    rfl
  unfold clearIndices setBits
  rw [hrange, List.filter_map]
  congr 1
  apply List.filter_congr
  intro j hj
  rw [List.mem_range'_1] at hj
  have hj64 : j < 64 := by omega
  show (!bit freeMap (64 * i + j)) = _
  rw [bit_field hj64]
  simp [hj64]

theorem visitWords_eq (freeMap : Fields) (start left i : ℕ)
    (calls : List VisitCall) :
    visitWords visitor bsize ubsize freeMap left i
        (start + 64 * i * bsize) calls =
      some (visitUntil visitor
        (blockCalls start bsize ubsize
          (clearIndices freeMap (64 * i) (64 * left))) calls) := by
  induction left generalizing i calls with
  | zero => rfl
  | succ left ih =>
      have hword : (if freeMap i = 0#64 then
            some (visitAll visitor bsize ubsize 64
              (start + 64 * i * bsize) calls)
          else visitMask visitor bsize ubsize (start + 64 * i * bsize) 65
            (~~~freeMap i) calls) =
          some (visitUntil visitor
            (blockCalls start bsize ubsize
              (clearIndices freeMap (64 * i) 64)) calls) := by
        rw [clearIndices_word]
        have hmask : visitMask visitor bsize ubsize
            (start + 64 * i * bsize) 65 (~~~freeMap i) calls = _ :=
          visitMask_eq (p := 0) start (64 * i) (by omega) (by omega)
            (by omega) calls
        split
        · rename_i hzero
          have hall : (setBits (~~~freeMap i) 0).map (fun j => 64 * i + j) =
              List.range' (64 * i) 64 := by
            rw [← clearIndices_word]
            unfold clearIndices
            rw [List.filter_eq_self]
            intro b hb
            rw [List.mem_range'_1] at hb
            have hb' : b = 64 * i + (b - 64 * i) := by omega
            rw [hb', bit_field (by omega), hzero]
            simp
          rw [visitAll_eq, hall]
        · exact hmask
      have hsplit : clearIndices freeMap (64 * i) (64 * (left + 1)) =
          clearIndices freeMap (64 * i) 64 ++
            clearIndices freeMap (64 * (i + 1)) (64 * left) := by
        have hrange : List.range' (64 * i) (64 * (left + 1)) =
            List.range' (64 * i) 64 ++
              List.range' (64 * (i + 1)) (64 * left) := by
          have hcount : 64 * (left + 1) = 64 + 64 * left := by omega
          rw [hcount, Nat.mul_succ, List.range'_append_1]
        unfold clearIndices
        rw [hrange, List.filter_append]
      have hnext : start + 64 * i * bsize + bsize * 64 =
          start + 64 * (i + 1) * bsize := by
        rw [Nat.mul_comm bsize 64, Nat.add_assoc, ← Nat.add_mul,
          Nat.mul_succ]
      unfold visitWords
      dsimp only
      rw [hword, hsplit]
      unfold blockCalls
      rw [List.map_append, visitUntil_append]
      generalize hfirst : visitUntil visitor
        ((clearIndices freeMap (64 * i) 64).map fun b =>
          (start + b * bsize, ubsize)) calls = first
      obtain ⟨ok, after⟩ := first
      cases ok with
      | false => rfl
      | true =>
          rw [hnext]
          exact ih (i + 1) after

/-! ## The bitmap -/

theorem getLsbD_allOnes_shiftLeft {ofs j : ℕ} (hj : j < 64) :
    (BitVec.allOnes 64 <<< ofs).getLsbD j = decide (ofs ≤ j) := by
  rw [BitVec.getLsbD_shiftLeft, BitVec.getLsbD_allOnes, decide_eq_true hj]
  by_cases hle : ofs ≤ j
  · have hnot : ¬ j < ofs := not_lt.mpr hle
    have hsub : j - ofs < 64 := by omega
    simp [hnot, hsub, hle]
  · have hlt : j < ofs := not_le.mp hle
    simp [hlt]

theorem bit_initFreeMap (stack : Fields) {capacity b : ℕ}
    (hb : b < 64 * divideUp capacity 64) :
    bit (initFreeMap stack capacity) b = decide (capacity ≤ b) := by
  unfold divideUp at hb
  have hclear : bit (fun i => if i < divideUp capacity 64 then 0#64
      else stack i) b = false := by
    have hword : b / 64 < divideUp capacity 64 := by
      unfold divideUp
      omega
    simp only [bit, hword, if_true]
    exact BitVec.getLsbD_zero
  unfold initFreeMap
  dsimp only
  split
  · rename_i hrest
    rw [bit_update]
    split
    · rename_i hlast
      unfold divideUp at hlast
      rw [getLsbD_allOnes_shiftLeft (Nat.mod_lt _ (by decide)),
        decide_eq_decide]
      omega
    · rename_i hbefore
      unfold divideUp at hbefore
      rw [hclear]
      symm
      rw [decide_eq_false_iff_not]
      omega
  · rw [hclear]
    symm
    rw [decide_eq_false_iff_not]
    omega

theorem sets_single (freeMap : Fields) (k : ℕ) :
    Sets freeMap
      (Function.update freeMap (k / 64)
        (freeMap (k / 64) ||| (1#64 <<< (k - k / 64 * 64)))) k (k + 1) := by
  have hone : ones 1 (k - k / 64 * 64) = 1#64 <<< (k - k / 64 * 64) := rfl
  have hsets := @sets_or freeMap (k / 64) 1 (k - k / 64 * 64) (by omega)
  rw [hone] at hsets
  have hindex : 64 * (k / 64) + (k - k / 64 * 64) = k := by omega
  rw [hindex] at hsets
  exact hsets

/-- Marking goes through the free list and sets the bits of its blocks. -/
theorem markFree_spec {links : Addr → Option Addr} {pstart : Addr}
    {capacity : ℕ} (hsize : 0 < bsize) (hfits : capacity * bsize < 2 ^ 32)
    (hwords : capacity ≤ 64 * freeMapWords) {free : List Addr}
    {fuel : ℕ} (hfuel : free.length < fuel) {block : Option Addr}
    (hchain : IsChain links block free)
    (hblocks : ∀ addr ∈ free, ∃ k < capacity, addr = pstart + k * bsize)
    (freeMap : Fields) :
    ∃ marked,
      markFree links pstart (getFastDivisor (BitVec.ofNat 64 bsize)).1
        (getFastDivisor (BitVec.ofNat 64 bsize)).2 fuel block freeMap =
          some marked ∧
      ∀ b, bit marked b =
        (bit freeMap b || decide (pstart + b * bsize ∈ free)) := by
  induction free generalizing fuel block freeMap with
  | nil =>
      have hnone : block = none := hchain
      subst hnone
      obtain ⟨fuel, rfl⟩ : ∃ rest, fuel = rest + 1 :=
        ⟨fuel - 1, by simp only [List.length_nil] at hfuel; omega⟩
      exact ⟨freeMap, rfl, fun b => by simp⟩
  | cons addr rest ih =>
      obtain ⟨hhead, hrest⟩ := hchain
      subst hhead
      obtain ⟨k, hk, haddr⟩ := hblocks addr (by simp)
      obtain ⟨fuel, rfl⟩ : ∃ less, fuel = less + 1 :=
        ⟨fuel - 1, by simp only [List.length_cons] at hfuel; omega⟩
      have hproduct : k * bsize < 2 ^ 32 :=
        (Nat.mul_le_mul_right _ hk.le).trans_lt hfits
      have hdivisor : bsize < 2 ^ 32 :=
        (Nat.le_mul_of_pos_left _ (by omega)).trans_lt hfits
      have hsizeNat : (BitVec.ofNat 64 bsize).toNat = bsize :=
        Nat.mod_eq_of_lt (by omega)
      have hoffsetNat : (BitVec.ofNat 64 (addr - pstart)).toNat =
          k * bsize := by
        rw [haddr, Nat.add_sub_cancel_left]
        exact Nat.mod_eq_of_lt (by omega)
      have hindex : (fastDivide (BitVec.ofNat 64 (addr - pstart))
          (getFastDivisor (BitVec.ofNat 64 bsize)).1
          (getFastDivisor (BitVec.ofNat 64 bsize)).2).toNat = k := by
        have hdivide := (fast_divide_eq (BitVec.ofNat 64 bsize)
          (BitVec.ofNat 64 (addr - pstart)) (by omega) (by omega)
          (by omega)).1
        rw [hdivide, hoffsetNat, hsizeNat, Nat.mul_div_cancel _ hsize]
      have hless : rest.length < fuel := by
        simp only [List.length_cons] at hfuel
        omega
      obtain ⟨marked, hmark, hbits⟩ := ih hless hrest
        (fun other hother => hblocks other (by simp [hother]))
        (Function.update freeMap (k / 64)
          (freeMap (k / 64) ||| (1#64 <<< (k - k / 64 * 64))))
      refine ⟨marked, ?_, ?_⟩
      · unfold markFree
        dsimp only
        rw [hindex, if_pos (by omega)]
        exact hmark
      · intro b
        rw [hbits b, sets_single freeMap k b, Bool.or_assoc,
          ← Bool.decide_or]
        congr 1
        rw [decide_eq_decide, List.mem_cons, haddr]
        have hsame : pstart + b * bsize = pstart + k * bsize ↔ b = k := by
          rw [Nat.add_left_cancel_iff, Nat.mul_left_inj (by omega)]
        rw [hsame]
        apply or_congr_left
        omega

/-! ## The page -/

/-- The area of a page as the segment layer lays it out: small blocks lie in a
page of one slice, and only a single block may exceed a segment. -/
structure PageExtent (segment idx : ℕ) (page : PageFields) : Prop where
  start_eq : page.pageStart =
    (segmentPageStartFromSlice segment idx page.sliceCount
      page.blockSize).1
  fits : page.reserved * page.blockSize ≤ page.sliceCount * segmentSliceSize
  blockSize_ge : intptrSize ≤ page.blockSize
  small : page.blockSize ≤ smallObjSizeMax →
    page.sliceCount * segmentSliceSize ≤ smallPageSize
  large : page.reserved ≤ 1 ∨
    page.sliceCount * segmentSliceSize ≤ segmentSize

/-- The bitmap has a bit for each block, and the offsets have 32 bits. -/
theorem PageExtent.bounds {segment idx : ℕ} {page : PageFields}
    (h : PageExtent segment idx page)
    (hcapacity : page.capacity ≤ page.reserved)
    (hmany : page.capacity ≠ 1) :
    page.capacity ≤ 64 * freeMapWords ∧
      page.capacity * page.blockSize < 2 ^ 32 := by
  have hwords : 64 * freeMapWords = 8192 := by decide
  have hptr : intptrSize = 8 := rfl
  have hobj : smallObjSizeMax = 8192 := by decide
  have hpage : smallPageSize = 65536 := rfl
  have hseg : segmentSize = 33554432 := rfl
  have hsize := h.blockSize_ge
  have hfits := (Nat.mul_le_mul_right page.blockSize hcapacity).trans h.fits
  have harea : page.capacity = 0 ∨
      page.sliceCount * segmentSliceSize ≤ segmentSize := by
    rcases h.large with hone | hlarge
    · left
      omega
    · exact .inr hlarge
  rcases harea with hzero | harea
  · rw [hzero]
    omega
  · refine ⟨?_, by omega⟩
    by_cases hsmall : page.blockSize ≤ smallObjSizeMax
    · have harea' := h.small hsmall
      have hle : page.capacity * 8 ≤ page.capacity * page.blockSize :=
        Nat.mul_le_mul_left _ (by omega)
      omega
    · have hle : page.capacity * 8192 ≤ page.capacity * page.blockSize :=
        Nat.mul_le_mul_left _ (by omega)
      omega

structure SameLayout (page page' : PageFields) : Prop where
  sliceCount : page'.sliceCount = page.sliceCount
  blockSize : page'.blockSize = page.blockSize
  pageStart : page'.pageStart = page.pageStart
  capacity : page'.capacity = page.capacity
  reserved : page'.reserved = page.reserved

theorem SameLayout.refl (page : PageFields) : SameLayout page page :=
  ⟨rfl, rfl, rfl, rfl, rfl⟩

theorem PageExtent.congr {segment idx : ℕ} {page page' : PageFields}
    (h : PageExtent segment idx page) (hsame : SameLayout page page') :
    PageExtent segment idx page' where
  start_eq := by
    rw [hsame.pageStart, hsame.sliceCount, hsame.blockSize]
    exact h.start_eq
  fits := by
    rw [hsame.reserved, hsame.sliceCount, hsame.blockSize]
    exact h.fits
  blockSize_ge := by
    rw [hsame.blockSize]
    exact h.blockSize_ge
  small := by
    rw [hsame.sliceCount, hsame.blockSize]
    exact h.small
  large := by
    rw [hsame.reserved, hsame.sliceCount]
    exact h.large

theorem pageThreadFreeCollect_layout (page : PageFields) :
    SameLayout page (pageThreadFreeCollect page) := by
  unfold pageThreadFreeCollect
  cases page.xthreadFree.block with
  | none => exact ⟨rfl, rfl, rfl, rfl, rfl⟩
  | some head =>
      dsimp only
      split <;> exact ⟨rfl, rfl, rfl, rfl, rfl⟩

theorem pageFreeCollect_layout {page page' : PageFields} {force : Bool}
    (h : pageFreeCollect page force = some page') :
    SameLayout page page' := by
  have hfirst : ∃ p : PageFields,
      (if force ∨ page.xthreadFree.block ≠ none then
        pageThreadFreeCollect page else page) = p ∧ SameLayout page p := by
    split
    · exact ⟨_, rfl, pageThreadFreeCollect_layout page⟩
    · exact ⟨_, rfl, .refl page⟩
  obtain ⟨p, hp, ⟨hslices, hsize, hstart, hcapacity, hreserved⟩⟩ := hfirst
  simp only [pageFreeCollect, hp] at h
  split at h
  · cases h
    exact ⟨hslices, hsize, hstart, hcapacity, hreserved⟩
  · split at h
    · cases h
      exact ⟨hslices, hsize, hstart, hcapacity, hreserved⟩
    · split at h
      · split at h
        · cases h
        · cases h
          exact ⟨hslices, hsize, hstart, hcapacity, hreserved⟩
      · cases h
        exact ⟨hslices, hsize, hstart, hcapacity, hreserved⟩

/-- The blocks of a page that are not on its free list, in the order of their
addresses. -/
def usedBlocks (page : PageFields) (free : List Addr) : List Addr :=
  (blockRun page.blockSize page.pageStart page.capacity).filter fun block =>
    block ∉ free

theorem blockRun_eq_map (blockSize start count : ℕ) :
    blockRun blockSize start count =
      (List.range' 0 count).map fun b => start + b * blockSize := by
  apply List.ext_getElem
  · simp
  · intro b _ _
    simp [Nat.mul_comm]

theorem pairwise_usedBlocks {page : PageFields} (hpos : 0 < page.blockSize)
    (free : List Addr) :
    (usedBlocks page free).Pairwise fun a b => a < b :=
  (List.pairwise_lt_range' _ hpos).sublist List.filter_sublist

theorem mem_usedBlocks {page : PageFields} {live free : List Addr}
    (h : PagePartition page live free [] []) (block : Addr) :
    block ∈ usedBlocks page free ↔ block ∈ live := by
  have hperm := h.blocks
  simp only [List.append_nil] at hperm
  have hnodup := h.nodup
  simp only [List.append_nil] at hnodup
  unfold usedBlocks
  rw [List.mem_filter, decide_eq_true_eq, ← hperm.mem_iff, List.mem_append]
  constructor
  · rintro ⟨hlive | hfree, hnot⟩
    · exact hlive
    · exact absurd hfree hnot
  · intro hlive
    exact ⟨.inl hlive, (h.notMem_lists hlive).1⟩

/-- The unmarked indices of the finished bitmap are the used blocks. -/
theorem clearIndices_used {page : PageFields} {free : List Addr}
    {marked : Fields}
    (hmarked : ∀ b < 64 * divideUp page.capacity 64, bit marked b =
      (decide (page.capacity ≤ b) ||
        decide (page.pageStart + b * page.blockSize ∈ free))) :
    (clearIndices marked 0 (64 * divideUp page.capacity 64)).map
        (fun b => page.pageStart + b * page.blockSize) =
      usedBlocks page free := by
  have hround : page.capacity ≤ 64 * divideUp page.capacity 64 := by
    unfold divideUp
    omega
  have hsplit : List.range' 0 (64 * divideUp page.capacity 64) =
      List.range' 0 page.capacity ++ List.range' page.capacity
        (64 * divideUp page.capacity 64 - page.capacity) := by
    have hjoin := @List.range'_append_1 0 page.capacity
      (64 * divideUp page.capacity 64 - page.capacity)
    rw [Nat.zero_add, Nat.add_sub_of_le hround] at hjoin
    exact hjoin.symm
  have hbehind : (List.range' page.capacity
      (64 * divideUp page.capacity 64 - page.capacity)).filter
        (fun b => !bit marked b) = [] := by
    rw [List.filter_eq_nil_iff]
    intro b hb
    rw [List.mem_range'_1] at hb
    rw [hmarked b (by omega), decide_eq_true hb.1, Bool.true_or]
    simp
  unfold clearIndices usedBlocks
  rw [hsplit, List.filter_append, hbehind, List.append_nil]
  rw [blockRun_eq_map, List.filter_map]
  congr 1
  apply List.filter_congr
  intro b hb
  rw [List.mem_range'_1] at hb
  have hlt : ¬ page.capacity ≤ b := by omega
  rw [hmarked b (by omega), decide_eq_false hlt, Bool.false_or]
  exact (decide_not).symm

/-! ## The walk -/

section Page

variable {page : PageFields} {live free : List Addr}

/-- The three ways through a collected page all visit its used blocks. -/
theorem visitBlocks_collected (visitor : Visitor)
    (h : PagePartition page live free [] []) {segment idx : ℕ}
    (harea : PageExtent segment idx page)
    (stack : Fields) {fuel : ℕ} (hfuel : page.capacity < fuel)
    (hused : page.used ≠ 0) (ubsize : ℕ) :
    let result := visitUntil visitor
      ((usedBlocks page free).map fun block => (block, ubsize)) []
    (page.capacity = 1 → usedBlocks page free = [page.pageStart]) ∧
    (page.used = page.capacity →
      visitAll visitor page.blockSize ubsize page.capacity page.pageStart []
        = result) ∧
    (page.capacity ≠ 1 → ∃ marked,
      ¬ freeMapWords < divideUp page.capacity 64 ∧
      markFree page.links page.pageStart
        (getFastDivisor (BitVec.ofNat 64 page.blockSize)).1
        (getFastDivisor (BitVec.ofNat 64 page.blockSize)).2 fuel page.free
        (initFreeMap stack page.capacity) = some marked ∧
      visitWords visitor page.blockSize ubsize marked
        (divideUp page.capacity 64) 0 page.pageStart [] = some result) := by
  intro result
  have hlength := h.length_eq
  have hcount := h.used_eq
  simp only [List.length_nil, Nat.add_zero] at hlength hcount
  have hrun : ∀ {l : List ℕ}, l.map (fun b =>
      page.pageStart + b * page.blockSize) = usedBlocks page free →
        blockCalls page.pageStart page.blockSize ubsize l =
          (usedBlocks page free).map fun block => (block, ubsize) := by
    intro l hl
    rw [← hl, List.map_map]
    rfl
  refine ⟨?_, ?_, ?_⟩
  · intro hone
    have hnil : free = [] := by
      rw [← List.length_eq_zero_iff]
      omega
    unfold usedBlocks
    rw [hone, hnil]
    rfl
  · intro hfull
    have hnil : free = [] := by
      rw [← List.length_eq_zero_iff]
      omega
    have hall : visitAll visitor page.blockSize ubsize page.capacity
        (page.pageStart + 0 * page.blockSize) [] = _ :=
      visitAll_eq page.pageStart page.capacity 0 []
    rw [Nat.zero_mul, Nat.add_zero] at hall
    rw [hall, hrun]
    rw [← blockRun_eq_map]
    unfold usedBlocks
    rw [hnil, List.filter_eq_self.mpr]
    intro block _
    simp
  · intro hmany
    obtain ⟨hwords, hoffset⟩ := harea.bounds h.capacity_le hmany
    have hfit : ¬ freeMapWords < divideUp page.capacity 64 := by
      unfold divideUp
      omega
    have hblocks : ∀ addr ∈ free,
        ∃ k < page.capacity, addr = page.pageStart + k * page.blockSize := by
      intro addr haddr
      have hmem := (h.blocks.mem_iff (a := addr)).mp (by simp [haddr])
      rw [List.mem_range'] at hmem
      obtain ⟨k, hk, hk'⟩ := hmem
      exact ⟨k, hk, by rw [hk', Nat.mul_comm]⟩
    have hless : free.length < fuel := by omega
    obtain ⟨marked, hmark, hbits⟩ := markFree_spec h.blockSize_pos hoffset
      hwords hless h.free_chain hblocks
      (initFreeMap stack page.capacity)
    refine ⟨marked, hfit, hmark, ?_⟩
    have hwalk : visitWords visitor page.blockSize ubsize marked
        (divideUp page.capacity 64) 0
        (page.pageStart + 64 * 0 * page.blockSize) [] = _ :=
      visitWords_eq marked page.pageStart (divideUp page.capacity 64) 0 []
    rw [Nat.mul_zero, Nat.zero_mul, Nat.add_zero] at hwalk
    rw [hwalk, hrun]
    apply clearIndices_used
    intro b hb
    rw [hbits, bit_initFreeMap stack hb]

end Page

/-- `_pa_heap_area_visit_blocks` calls the visitor for the blocks of the page
that are not on its free list after collection, once each and in the order of
their addresses, up to the first call that the visitor refuses. -/
theorem heap_area_visit_blocks (cfg : Config) (visitor : Visitor)
    (stack : Fields) {segment idx : ℕ} {page : PageFields}
    {live free localFree thread : List Addr}
    (h : PagePartition page live free localFree thread)
    (harea : PageExtent segment idx page) :
    ∃ page' free' ok calls,
      PagePartition page' live free' [] [] ∧
      (∀ fuel > page.capacity,
        heapAreaVisitBlocks cfg visitor stack fuel segment idx page =
          some (ok, calls, page')) ∧
      (usedBlocks page' free').Pairwise (fun a b => a < b) ∧
      (∀ block, block ∈ usedBlocks page' free' ↔ block ∈ live) ∧
      Visited visitor
        ((usedBlocks page' free').map fun block =>
          (block, pageUsableBlockSize cfg page)) ok calls := by
  obtain ⟨page', free', localFree', hcollect, hpage', hempty⟩ :=
    h.freeCollect true
  have hnil := hempty (.inl rfl)
  subst hnil
  have hsame := pageFreeCollect_layout hcollect
  have harea' := harea.congr hsame
  have husable : pageUsableBlockSize cfg page' =
      pageUsableBlockSize cfg page := by
    unfold pageUsableBlockSize
    rw [hsame.blockSize]
  obtain ⟨new, hnew, hvisited⟩ := @visitUntil_visited visitor
    ((usedBlocks page' free').map fun block =>
      (block, pageUsableBlockSize cfg page)) []
  rw [List.nil_append] at hnew
  refine ⟨page', free', _, new, hpage', ?_,
    pairwise_usedBlocks hpage'.blockSize_pos free',
    mem_usedBlocks hpage', hvisited⟩
  intro fuel hfuel
  unfold heapAreaVisitBlocks
  rw [hcollect]
  dsimp only
  rw [← harea'.start_eq, husable, ← hnew]
  by_cases hused : page'.used = 0
  · have hlive : live = [] := by
      rw [← List.length_eq_zero_iff]
      have hcount := hpage'.used_eq
      omega
    have hnone : usedBlocks page' free' = [] := by
      rw [List.eq_nil_iff_forall_not_mem]
      intro block hblock
      rw [mem_usedBlocks hpage', hlive] at hblock
      cases hblock
    rw [if_pos hused, hnone]
    rfl
  · obtain ⟨hone, hall, hmany⟩ := visitBlocks_collected visitor hpage' harea'
      stack (hsame.capacity.trans_lt hfuel) hused
      (pageUsableBlockSize cfg page)
    rw [if_neg hused]
    by_cases hsingle : page'.capacity = 1
    · rw [if_pos hsingle, hone hsingle]
      simp only [List.map_cons, List.map_nil, visitUntil]
      cases visitor [] (page'.pageStart, pageUsableBlockSize cfg page) <;> rfl
    · rw [if_neg hsingle]
      split
      · rename_i hfull
        rw [hall hfull]
      · obtain ⟨marked, hfit, hmark, hwalk⟩ := hmany hsingle
        rw [if_neg hfit, hmark]
        dsimp only
        rw [hwalk, Option.map_some]

/-- Four blocks of 8 KiB, of which the second and the fourth are free. -/
def walkPage : PageFields :=
  { PageFields.zero with
    sliceCount := 1
    capacity := 4
    reserved := 8
    used := 2
    blockSize := 8192
    pageStart := 33619968
    free := some 33628160
    links := fun addr => if addr = 33628160 then some 33644544 else none }

theorem heap_area_visit_blocks_walkPage :
    ∃ calls page',
      heapAreaVisitBlocks {} (fun _ _ => true) (fun _ => 0) 5 1 1 walkPage =
          some (true, calls, page') ∧
        ∀ block, block ∈ calls.map Prod.fst ↔
          block ∈ [33619968, 33636352] := by
  have hpage : PagePartition walkPage [33619968, 33636352]
      [33628160, 33644544] [] [] :=
    { free_chain := ⟨rfl, rfl, rfl⟩
      local_chain := rfl
      thread_chain := rfl
      blocks := by decide
      used_eq := rfl
      capacity_le := by decide
      reserved_lt := by decide
      blockSize_pos := by decide }
  have harea : PageExtent 1 1 walkPage :=
    ⟨by decide, by decide, by decide, by decide, by decide⟩
  obtain ⟨page', free', ok, calls, -, hrun, -, hmem, hvisited⟩ :=
    heap_area_visit_blocks {} (fun _ _ => true) (fun _ => 0) hpage harea
  cases ok with
  | false =>
      obtain ⟨_, _, _, hrefused⟩ := hvisited.refused rfl
      cases hrefused
  | true =>
      refine ⟨calls, page', hrun 5 (by decide), ?_⟩
      intro block
      rw [hvisited.complete rfl, List.map_map, ← hmem block]
      simp

end Palloc
