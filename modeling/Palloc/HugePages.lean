import Palloc.AlignedAllocation
import Palloc.ReservedMemory
import Palloc.SegmentModel
import Mathlib.Data.List.Range

/-!
# Huge OS pages

`_pa_os_alloc_huge_os_pages` asks for one page of 1 GiB after another, at
addresses that follow each other, and stops when a page is refused, when it is
placed elsewhere or when the time is up.  `_pa_os_free_ex` frees them one by
one again.  The memory id holds the size that was asked for, and that is the
size that is freed.

The answers of the operating system and the clock are parameters.
-/

namespace Palloc

open MachineWord

/-- `PA_HUGE_OS_PAGE_SIZE`. -/
def hugeOsPageSize : ℕ := 1024 * 1024 * 1024

theorem hugeOsPageSize_pos : 0 < hugeOsPageSize := by decide

/-! ## The operating system -/

structure HugeAnswer where
  ptr : Option ℕ
  isZero : Bool

/-- The operating system.  It is asked for the `page`-th page at an address and
for a NUMA node; a page that it gives lies in the address space.  `elapsed n`
is the time after the `n`-th page. -/
structure HugeOs where
  sizes : SegmentSizes
  answer : (numaNode : ℤ) → (page addr : ℕ) → HugeAnswer
  elapsed : ℕ → BitVec 64
  fits : ∀ numaNode page addr p, (answer numaNode page addr).ptr = some p →
    0 < p ∧ p + hugeOsPageSize ≤ wordSize

/-- `pa_huge_start`, the counters of reserved and committed bytes, and the
calls of `_pa_prim_free`. -/
structure HugeState where
  hugeStart : Word
  reserved : ℤ
  committed : ℤ
  frees : List (ℕ × ℕ)

/-- `pa_memid_t` of memory from the operating system. -/
structure OsMemid where
  memkind : MemKind
  base : ℕ
  size : ℕ
  initiallyCommitted : Bool
  initiallyZero : Bool
  isPinned : Bool

/-- `_pa_memid_none`. -/
def OsMemid.none : OsMemid := ⟨.none, 0, 0, false, false, false⟩

/-- `_pa_memid_create_os`. -/
def OsMemid.createOs (base size : ℕ) (committed isZero isLarge : Bool) :
    OsMemid :=
  ⟨.os, base, size, committed, isZero, isLarge⟩

/-- `pa_memkind_is_os`. -/
def memkindIsOs : MemKind → Bool
  | .os | .osHuge | .osRemap => true
  | _ => false

/-- `pa_os_prim_free`; it warns when the operating system fails. -/
def HugeState.primFree (addr size commitSize : ℕ) (st : HugeState) :
    HugeState :=
  if addr = 0 then st
  else
    { st with
      frees := st.frees ++ [(addr, size)]
      committed := if 0 < commitSize then st.committed - commitSize
        else st.committed
      reserved := st.reserved - size }

/-! ## Allocation -/

/-- `pa_os_claim_huge_pages`: the start and the size of the range. -/
def claimHugePages (pages random : ℕ) (st : HugeState) :
    ℕ × ℕ × HugeState :=
  let size := pages * hugeOsPageSize % wordSize
  let start :=
    if st.hugeStart.val = 0 then
      32 * 2 ^ 40 + hugeOsPageSize * (random % 4096)
    else st.hugeStart.val
  (start, size,
    { st with
      hugeStart :=
        ⟨(start + size) % wordSize, Nat.mod_lt _ (by decide)⟩ })

/-- Where the `page`-th page of a range lies. -/
def hugeAddr (start page : ℕ) : ℕ := (start + page * hugeOsPageSize) % wordSize

/-- The check for a time-out after `page` pages.  The estimate is computed
with unsigned words and then compared as a signed one. -/
def hugeTimedOut (os : HugeOs) (maxMsecs : BitVec 64) (pages page : ℕ) :
    Bool :=
  if (0#64).slt maxMsecs then
    let elapsed := os.elapsed page
    let elapsed :=
      if 1 ≤ page then
        let estimate :=
          elapsed / BitVec.ofNat 64 (page + 1) * BitVec.ofNat 64 pages
        if (2#64 * maxMsecs).slt estimate then maxMsecs + 1#64 else elapsed
      else elapsed
    maxMsecs.slt elapsed
  else false

/-- The loop of `_pa_os_alloc_huge_os_pages` for the pages that are `left`:
how many were obtained, and whether all are zero. -/
def allocHugeLoop (os : HugeOs) (start pages : ℕ) (numaNode : ℤ)
    (maxMsecs : BitVec 64) :
    (left page : ℕ) → (allZero : Bool) → HugeState → ℕ × Bool × HugeState
  | 0, page, allZero, st => (page, allZero, st)
  | left + 1, page, allZero, st =>
      let addr := hugeAddr start page
      let answer := os.answer numaNode page addr
      let allZero := if answer.isZero then allZero else false
      match answer.ptr with
      | none => (page, allZero, st)
      | some p =>
          if p ≠ addr then
            (page, allZero, st.primFree p hugeOsPageSize hugeOsPageSize)
          else
            let page := page + 1
            let st := { st with
              committed := st.committed + hugeOsPageSize
              reserved := st.reserved + hugeOsPageSize }
            if hugeTimedOut os maxMsecs pages page then (page, allZero, st)
            else
              allocHugeLoop os start pages numaNode maxMsecs left page allZero
                st

/-- What `_pa_os_alloc_huge_os_pages` returns; a null pointer is 0. -/
structure HugeResult where
  ptr : ℕ
  pagesReserved : ℕ
  size : ℕ
  memid : OsMemid

/-- `_pa_os_alloc_huge_os_pages`. -/
def allocHugeOsPages (os : HugeOs) (pages : ℕ) (numaNode : ℤ)
    (maxMsecs : BitVec 64) (random : ℕ) (st : HugeState) :
    HugeResult × HugeState :=
  let (start, size, st) := claimHugePages pages random st
  let (page, allZero, st) :=
    allocHugeLoop os start pages numaNode maxMsecs pages 0 true st
  ({ ptr := if page = 0 then 0 else start
     pagesReserved := page
     size := page * hugeOsPageSize % wordSize
     memid :=
       if page ≠ 0 then
         { OsMemid.createOs start size true allZero true with
           memkind := .osHuge }
       else OsMemid.none }, st)

/-! ## Freeing -/

/-- The loop of `pa_os_free_huge_os_pages`, at most `fuel` pages. -/
def freeHugeLoop : (fuel base size : ℕ) → HugeState → HugeState
  | 0, _, _, st => st
  | fuel + 1, base, size, st =>
      if hugeOsPageSize ≤ size then
        freeHugeLoop fuel ((base + hugeOsPageSize) % wordSize)
          (size - hugeOsPageSize)
          (st.primFree base hugeOsPageSize hugeOsPageSize)
      else st

/-- `pa_os_free_huge_os_pages`.  A round of the loop takes a page. -/
def freeHugeOsPages (p size : ℕ) (st : HugeState) : HugeState :=
  if p = 0 ∨ size = 0 then st
  else freeHugeLoop (size / hugeOsPageSize + 1) p size st

/-- `_pa_os_free_ex`. -/
def osFreeEx (os : HugeOs) (addr size : ℕ) (stillCommitted : Bool)
    (memid : OsMemid) (st : HugeState) : HugeState :=
  if memkindIsOs memid.memkind then
    let csize :=
      if memid.size = 0 then osGoodAllocSize os.sizes size else memid.size
    let commitSize := if stillCommitted then csize else 0
    let diff := (wordSize + addr - memid.base) % wordSize
    let moved := memid.base ≠ addr
    let base := if moved then memid.base else addr
    let csize :=
      if moved ∧ memid.size = 0 then (csize + diff) % wordSize else csize
    let commitSize :=
      if moved ∧ stillCommitted then
        (wordSize + commitSize - diff) % wordSize
      else commitSize
    if memid.memkind = .osHuge then freeHugeOsPages base csize st
    else st.primFree base csize (if stillCommitted then commitSize else 0)
  else st

/-! ## Where the loop stops -/

inductive StopReason where
  /-- The page after those obtained is refused. -/
  | refused
  /-- It is placed elsewhere. -/
  | elsewhere
  /-- The time was up before it was asked for. -/
  | timedOut
  deriving DecidableEq

/-- The `k`-th page is placed where it is asked for. -/
def HugeOs.Places (os : HugeOs) (numaNode : ℤ) (start k : ℕ) : Prop :=
  (os.answer numaNode k (hugeAddr start k)).ptr = some (hugeAddr start k)

structure HugeOs.Prefix (os : HugeOs) (numaNode : ℤ) (maxMsecs : BitVec 64)
    (start pages n : ℕ) : Prop where
  places : ∀ k < n, os.Places numaNode start k
  inTime : ∀ k, 0 < k → k < n → hugeTimedOut os maxMsecs pages k = false

/-- The answers end the loop after `n` pages, for the given reason. -/
def HugeOs.StopsAfter (os : HugeOs) (numaNode : ℤ) (maxMsecs : BitVec 64)
    (start pages n : ℕ) (reason : StopReason) : Prop :=
  os.Prefix numaNode maxMsecs start pages n ∧
  match reason with
  | .timedOut => 0 < n ∧ hugeTimedOut os maxMsecs pages n = true
  | .refused =>
      (0 < n → hugeTimedOut os maxMsecs pages n = false) ∧
      (os.answer numaNode n (hugeAddr start n)).ptr = none
  | .elsewhere =>
      (0 < n → hugeTimedOut os maxMsecs pages n = false) ∧
      ∃ p, (os.answer numaNode n (hugeAddr start n)).ptr = some p ∧
        p ≠ hugeAddr start n

variable {os : HugeOs} {numaNode : ℤ} {maxMsecs : BitVec 64}
variable {start pages n n' : ℕ} {reason reason' : StopReason}

theorem HugeOs.Prefix.exact (hstart : start ≤ wordSize)
    (h : os.Prefix numaNode maxMsecs start pages n) :
    start + n * hugeOsPageSize ≤ wordSize ∧
      ∀ k < n, hugeAddr start k = start + k * hugeOsPageSize ∧
        0 < hugeAddr start k := by
  induction n with
  | zero => exact ⟨by omega, fun k hk => absurd hk (Nat.not_lt_zero k)⟩
  | succ n ih =>
      obtain ⟨hle, haddr⟩ := ih
        ⟨fun k hk => h.places k (Nat.lt_succ_of_lt hk),
          fun k hk hk' => h.inTime k hk (Nat.lt_succ_of_lt hk')⟩
      obtain ⟨hpos, hfit⟩ := os.fits _ _ _ _ (h.places n n.lt_succ_self)
      have hexact : hugeAddr start n = start + n * hugeOsPageSize := by
        unfold hugeAddr at hpos ⊢
        rcases hle.eq_or_lt with heq | hlt
        · rw [heq, Nat.mod_self] at hpos
          exact absurd hpos (lt_irrefl 0)
        · exact Nat.mod_eq_of_lt hlt
      refine ⟨?_, ?_⟩
      · rw [Nat.succ_mul]
        omega
      · intro k hk
        rcases Nat.lt_succ_iff_lt_or_eq.mp hk with hlt | rfl
        · exact haddr k hlt
        · exact ⟨hexact, hpos⟩

theorem HugeOs.StopsAfter.not_before
    (h : os.StopsAfter numaNode maxMsecs start pages n reason)
    (hplaced : os.Prefix numaNode maxMsecs start pages n') : ¬ n < n' := by
  intro hlt
  have hplaces := hplaced.places n hlt
  unfold HugeOs.Places at hplaces
  cases reason with
  | timedOut =>
      obtain ⟨-, hpos, htime⟩ := h
      rw [hplaced.inTime n hpos hlt] at htime
      cases htime
  | refused =>
      obtain ⟨-, -, hnone⟩ := h
      rw [hnone] at hplaces
      cases hplaces
  | elsewhere =>
      obtain ⟨-, -, p, hp, hne⟩ := h
      rw [hp] at hplaces
      exact hne (Option.some.inj hplaces)

theorem HugeOs.StopsAfter.unique
    (h : os.StopsAfter numaNode maxMsecs start pages n reason)
    (h' : os.StopsAfter numaNode maxMsecs start pages n' reason') :
    n = n' ∧ reason = reason' := by
  obtain rfl : n = n' :=
    le_antisymm (not_lt.mp (h'.not_before h.1))
      (not_lt.mp (h.not_before h'.1))
  refine ⟨rfl, ?_⟩
  cases reason with
  | timedOut =>
      obtain ⟨-, hpos, htime⟩ := h
      cases reason' with
      | timedOut => rfl
      | refused =>
          rw [h'.2.1 hpos] at htime
          cases htime
      | elsewhere =>
          rw [h'.2.1 hpos] at htime
          cases htime
  | refused =>
      obtain ⟨-, htime, hnone⟩ := h
      cases reason' with
      | timedOut =>
          obtain ⟨-, hpos, htime'⟩ := h'
          rw [htime hpos] at htime'
          cases htime'
      | refused => rfl
      | elsewhere =>
          obtain ⟨-, -, p, hp, -⟩ := h'
          rw [hnone] at hp
          cases hp
  | elsewhere =>
      obtain ⟨-, htime, p, hp, -⟩ := h
      cases reason' with
      | timedOut =>
          obtain ⟨-, hpos, htime'⟩ := h'
          rw [htime hpos] at htime'
          cases htime'
      | refused =>
          obtain ⟨-, -, hnone⟩ := h'
          rw [hnone] at hp
          cases hp
      | elsewhere => rfl

/-! ## What the loop does -/

variable {allZero : Bool} {st st' : HugeState}

/-- The counters after `count` more pages. -/
def HugeState.gain (count : ℕ) (st : HugeState) : HugeState :=
  { st with
    committed := st.committed + count * hugeOsPageSize
    reserved := st.reserved + count * hugeOsPageSize }

theorem HugeState.gain_zero (st : HugeState) : st.gain 0 = st := by
  simp [HugeState.gain]

theorem HugeState.gain_gain (a b : ℕ) (st : HugeState) :
    (st.gain a).gain b = st.gain (a + b) := by
  simp [HugeState.gain, add_mul, add_assoc]

/-- What the loop has done when it ends: a prefix of the pages is obtained, and
a page that is placed elsewhere is freed at once. -/
inductive LoopEnd (os : HugeOs) (numaNode : ℤ) (maxMsecs : BitVec 64)
    (start pages : ℕ) (st : HugeState) : ℕ → HugeState → Prop
  | all (hplaced : os.Prefix numaNode maxMsecs start pages pages) :
      LoopEnd os numaNode maxMsecs start pages st pages (st.gain pages)
  | stopped {n : ℕ} {reason : StopReason} (hlt : n < pages)
      (hstops : os.StopsAfter numaNode maxMsecs start pages n reason)
      (hreason : reason ≠ .elsewhere) :
      LoopEnd os numaNode maxMsecs start pages st n (st.gain n)
  | elsewhere {n p : ℕ} (hlt : n < pages) (hpos : 0 < p)
      (hstops : os.StopsAfter numaNode maxMsecs start pages n .elsewhere) :
      LoopEnd os numaNode maxMsecs start pages st n
        ((st.gain n).primFree p hugeOsPageSize hugeOsPageSize)

theorem HugeOs.Prefix.succ
    (h : os.Prefix numaNode maxMsecs start pages n)
    (htime : 0 < n → hugeTimedOut os maxMsecs pages n = false)
    (hplaces : os.Places numaNode start n) :
    os.Prefix numaNode maxMsecs start pages (n + 1) := by
  constructor
  · intro k hk
    rcases Nat.lt_succ_iff_lt_or_eq.mp hk with hlt | rfl
    · exact h.places k hlt
    · exact hplaces
  · intro k hpos hk
    rcases Nat.lt_succ_iff_lt_or_eq.mp hk with hlt | rfl
    · exact h.inTime k hpos hlt
    · exact htime hpos

theorem allocHugeLoop_spec {left page : ℕ} (hleft : page + left = pages)
    (hplaced : os.Prefix numaNode maxMsecs start pages page)
    (htime : 0 < page → hugeTimedOut os maxMsecs pages page = false) :
    ∃ n allZero' st',
      allocHugeLoop os start pages numaNode maxMsecs left page allZero
        (st.gain page) = (n, allZero', st') ∧
      LoopEnd os numaNode maxMsecs start pages st n st' := by
  induction left generalizing page allZero with
  | zero =>
      obtain rfl : page = pages := hleft
      exact ⟨page, allZero, _, rfl, .all hplaced⟩
  | succ left ih =>
      have hlt : page < pages := by omega
      unfold allocHugeLoop
      dsimp only
      cases hptr : (os.answer numaNode page (hugeAddr start page)).ptr with
      | none =>
          have hstops : os.StopsAfter numaNode maxMsecs start pages page
              .refused := ⟨hplaced, htime, hptr⟩
          exact ⟨page, _, _, rfl, .stopped hlt hstops (by decide)⟩
      | some p =>
          dsimp only
          by_cases hp : p = hugeAddr start page
          · rw [hp] at hptr
            have hsucc := hplaced.succ htime hptr
            have hgain : ({ st.gain page with
                committed := (st.gain page).committed + hugeOsPageSize
                reserved := (st.gain page).reserved + hugeOsPageSize } :
                  HugeState) = st.gain (page + 1) := by
              rw [← st.gain_gain page 1]
              simp [HugeState.gain]
            rw [if_neg (not_not.mpr hp), hgain]
            cases hout : hugeTimedOut os maxMsecs pages (page + 1) with
            | true =>
                rw [if_pos rfl]
                rcases Nat.lt_or_ge (page + 1) pages with hmore | hlast
                · have hstops : os.StopsAfter numaNode maxMsecs start pages
                      (page + 1) .timedOut := ⟨hsucc, page.succ_pos, hout⟩
                  exact ⟨page + 1, _, _, rfl,
                    .stopped hmore hstops (by decide)⟩
                · obtain rfl : page + 1 = pages := by omega
                  exact ⟨page + 1, _, _, rfl, .all hsucc⟩
            | false =>
                rw [if_neg Bool.false_ne_true]
                exact ih (by omega) hsucc fun _ => hout
          · rw [if_pos hp]
            exact ⟨page, _, _, rfl, .elsewhere hlt (os.fits _ _ _ _ hptr).1
              ⟨hplaced, htime, p, hptr, hp⟩⟩

/-! ## What is freed -/

/-- The pages of a range that are freed: all but one at the null address. -/
def freedPages (start count : ℕ) : List (ℕ × ℕ) :=
  (((List.range count).map (hugeAddr start)).filter (· ≠ 0)).map fun addr =>
    (addr, hugeOsPageSize)

def HugeState.release (pages : List (ℕ × ℕ)) (st : HugeState) : HugeState :=
  { st with
    frees := st.frees ++ pages
    committed := st.committed - pages.length * hugeOsPageSize
    reserved := st.reserved - pages.length * hugeOsPageSize }

theorem primFree_page {addr : ℕ} (hpos : addr ≠ 0) (st : HugeState) :
    st.primFree addr hugeOsPageSize hugeOsPageSize =
      st.release [(addr, hugeOsPageSize)] := by
  unfold HugeState.primFree HugeState.release
  rw [if_neg hpos, if_pos hugeOsPageSize_pos]
  simp

theorem HugeState.release_release (a b : List (ℕ × ℕ)) (st : HugeState) :
    (st.release a).release b = st.release (a ++ b) := by
  unfold HugeState.release
  simp only [List.append_assoc, List.length_append, Nat.cast_add, add_mul,
    sub_add_eq_sub_sub]

theorem hugeAddr_succ (start k : ℕ) :
    hugeAddr ((start + hugeOsPageSize) % wordSize) k =
      hugeAddr start (k + 1) := by
  unfold hugeAddr
  rw [Nat.mod_add_mod, Nat.add_assoc, Nat.add_mul, Nat.one_mul,
    Nat.add_comm hugeOsPageSize]

theorem freedPages_succ (start count : ℕ) :
    freedPages start (count + 1) =
      (if hugeAddr start 0 ≠ 0 then [(hugeAddr start 0, hugeOsPageSize)]
        else []) ++
      freedPages ((start + hugeOsPageSize) % wordSize) count := by
  have hshift : hugeAddr ((start + hugeOsPageSize) % wordSize) =
      hugeAddr start ∘ Nat.succ := by
    funext k
    rw [Function.comp_apply]
    exact hugeAddr_succ start k
  unfold freedPages
  rw [hshift, ← List.map_map, List.range_succ_eq_map, List.map_cons]
  generalize hugeAddr start 0 = addr
  by_cases hzero : addr = 0
  · rw [List.filter_cons_of_neg (by simp [hzero]),
      if_neg (not_not.mpr hzero), List.nil_append]
  · rw [List.filter_cons_of_pos (by simp [hzero]), if_pos hzero,
      List.map_cons, List.singleton_append]

theorem freeHugeLoop_spec {fuel base count : ℕ} (hbase : base < wordSize)
    (hfuel : count < fuel) (st : HugeState) :
    freeHugeLoop fuel base (count * hugeOsPageSize) st =
      st.release (freedPages base count) := by
  induction count generalizing fuel base st with
  | zero =>
      obtain ⟨fuel, rfl⟩ : ∃ left, fuel = left + 1 := ⟨fuel - 1, by omega⟩
      unfold freeHugeLoop
      rw [Nat.zero_mul, if_neg (not_le.mpr hugeOsPageSize_pos)]
      simp [freedPages, HugeState.release]
  | succ count ih =>
      obtain ⟨fuel, rfl⟩ : ∃ left, fuel = left + 1 := ⟨fuel - 1, by omega⟩
      have hfirst : hugeAddr base 0 = base := by
        unfold hugeAddr
        rw [Nat.zero_mul, Nat.add_zero, Nat.mod_eq_of_lt hbase]
      have hsize : (count + 1) * hugeOsPageSize - hugeOsPageSize =
          count * hugeOsPageSize := by
        rw [Nat.succ_mul, Nat.add_sub_cancel]
      have hle : hugeOsPageSize ≤ (count + 1) * hugeOsPageSize := by
        rw [Nat.succ_mul]
        exact Nat.le_add_left _ _
      unfold freeHugeLoop
      rw [if_pos hle, hsize,
        ih (Nat.mod_lt _ (by decide)) (by omega), freedPages_succ, hfirst]
      by_cases hzero : base = 0
      · rw [if_neg (not_not.mpr hzero)]
        unfold HugeState.primFree
        rw [if_pos hzero, List.nil_append]
      · rw [if_pos hzero, primFree_page hzero, HugeState.release_release]

theorem freeHugeOsPages_spec {count : ℕ} (hstart : 0 < start)
    (hlt : start < wordSize) (hcount : 0 < count) (st : HugeState) :
    freeHugeOsPages start (count * hugeOsPageSize) st =
      st.release (freedPages start count) := by
  unfold freeHugeOsPages
  rw [if_neg, Nat.mul_div_cancel _ hugeOsPageSize_pos,
    freeHugeLoop_spec hlt (Nat.lt_succ_self _)]
  rintro (hnull | hnone)
  · exact hstart.ne' hnull
  · exact Nat.mul_ne_zero hcount.ne' hugeOsPageSize_pos.ne' hnone

/-- The pages that were obtained, as a range for each. -/
def obtainedPages (start count : ℕ) : List (ℕ × ℕ) :=
  (List.range count).map fun k => (start + k * hugeOsPageSize, hugeOsPageSize)

theorem length_obtainedPages (start count : ℕ) :
    (obtainedPages start count).length = count := by
  unfold obtainedPages
  rw [List.length_map, List.length_range]

theorem freedPages_append (start n more : ℕ) :
    freedPages start (n + more) = freedPages start n ++
      (((List.range' n more).map (hugeAddr start)).filter (· ≠ 0)).map
        fun addr => (addr, hugeOsPageSize) := by
  unfold freedPages
  rw [List.range_eq_range', List.range_eq_range', ← List.range'_append_1,
    List.map_append, List.filter_append, List.map_append, Nat.zero_add]

theorem length_freedPages_le (start count : ℕ) :
    (freedPages start count).length ≤ count := by
  unfold freedPages
  rw [List.length_map]
  refine (List.length_filter_le _ _).trans ?_
  rw [List.length_map, List.length_range]

theorem freedPages_eq
    (haddr : ∀ k < n, hugeAddr start k = start + k * hugeOsPageSize ∧
      0 < hugeAddr start k) :
    freedPages start n = obtainedPages start n := by
  have hall : ((List.range n).map (hugeAddr start)).filter (· ≠ 0) =
      (List.range n).map (hugeAddr start) := by
    rw [List.filter_eq_self]
    intro addr hmem
    obtain ⟨k, hk, rfl⟩ := List.mem_map.mp hmem
    have hpos := (haddr k (List.mem_range.mp hk)).2
    exact decide_eq_true hpos.ne'
  unfold freedPages obtainedPages
  rw [hall, List.map_map]
  apply List.map_congr_left
  intro k hk
  rw [Function.comp_apply, (haddr k (List.mem_range.mp hk)).1]

/-- Freeing `count` pages from the start of `n` that were obtained frees these
and nothing else. -/
theorem freedPages_eq_iff {count : ℕ}
    (haddr : ∀ k < n, hugeAddr start k = start + k * hugeOsPageSize ∧
      0 < hugeAddr start k) :
    freedPages start count = obtainedPages start n ↔
      n ≤ count ∧ ∀ k, n ≤ k → k < count → hugeAddr start k = 0 := by
  rcases Nat.lt_or_ge count n with hless | hle
  · have hshort := length_freedPages_le start count
    constructor
    · intro heq
      rw [heq, length_obtainedPages] at hshort
      omega
    · rintro ⟨hle, -⟩
      omega
  · obtain ⟨more, rfl⟩ := Nat.exists_eq_add_of_le hle
    rw [freedPages_append, freedPages_eq haddr, List.append_right_eq_self,
      List.map_eq_nil_iff, List.filter_eq_nil_iff]
    constructor
    · intro hnone
      refine ⟨hle, fun k hlo hhi => ?_⟩
      have hmem : hugeAddr start k ∈
          (List.range' n more).map (hugeAddr start) :=
        List.mem_map_of_mem (List.mem_range'_1.mpr ⟨hlo, hhi⟩)
      exact not_not.mp fun hne => hnone _ hmem (decide_eq_true hne)
    · rintro ⟨-, hzero⟩ addr hmem hne
      obtain ⟨k, hk, rfl⟩ := List.mem_map.mp hmem
      obtain ⟨hlo, hhi⟩ := List.mem_range'_1.mp hk
      exact of_decide_eq_true hne (hzero k hlo hhi)

/-! ## The size that is freed -/

theorem osGoodAllocSize_pages (hpos : 0 < n) :
    osGoodAllocSize os.sizes (n * hugeOsPageSize) = n * hugeOsPageSize := by
  have hpage : hugeOsPageSize = 4 * 1024 * 1024 * 256 := by decide
  have hle : hugeOsPageSize ≤ n * hugeOsPageSize :=
    Nat.le_mul_of_pos_left _ hpos
  have halign : (if n * hugeOsPageSize < 512 * 1024 then os.sizes.osPageSize
      else if n * hugeOsPageSize < 2 * 1024 * 1024 then 64 * 1024
      else if n * hugeOsPageSize < 8 * 1024 * 1024 then 256 * 1024
      else if n * hugeOsPageSize < 32 * 1024 * 1024 then 1024 * 1024
      else 4 * 1024 * 1024) = 4 * 1024 * 1024 := by
    rw [if_neg (by omega), if_neg (by omega), if_neg (by omega),
      if_neg (by omega)]
  unfold osGoodAllocSize
  rw [halign]
  dsimp only
  split
  · rfl
  · refine exactAlignUp_of_dvd (by decide) ?_
    rw [hpage]
    exact (Nat.dvd_mul_right _ 256).mul_left n

/-- How many pages the memory id of `n` obtained pages frees. -/
def recordedPages (pages n : ℕ) : ℕ :=
  if pages % 2 ^ 34 = 0 then n else pages % 2 ^ 34

theorem claimed_size (pages : ℕ) :
    pages * hugeOsPageSize % wordSize = pages % 2 ^ 34 * hugeOsPageSize := by
  have hword : wordSize = 2 ^ 34 * hugeOsPageSize := by decide
  rw [hword, Nat.mul_mod_mul_right]

def OsMemid.createHuge (base size : ℕ) (isZero : Bool) : OsMemid :=
  { OsMemid.createOs base size true isZero true with memkind := .osHuge }

theorem osFreeEx_of_base {memid : OsMemid} (hkind : memid.memkind = .osHuge)
    (size : ℕ) (stillCommitted : Bool) (st : HugeState) :
    osFreeEx os memid.base size stillCommitted memid st =
      freeHugeOsPages memid.base
        (if memid.size = 0 then osGoodAllocSize os.sizes size else memid.size)
        st := by
  unfold osFreeEx
  simp [hkind, memkindIsOs]

/-- Freeing the memory id frees as many pages as it records. -/
theorem osFreeEx_huge (hstart : 0 < start) (hlt : start < wordSize)
    (hpos : 0 < n) (hfit : n * hugeOsPageSize < wordSize)
    (stillCommitted : Bool) (st : HugeState) :
    osFreeEx os start (n * hugeOsPageSize % wordSize) stillCommitted
      (OsMemid.createHuge start (pages * hugeOsPageSize % wordSize) allZero)
      st =
      st.release (freedPages start (recordedPages pages n)) := by
  have hsize : (if pages * hugeOsPageSize % wordSize = 0 then
        osGoodAllocSize os.sizes (n * hugeOsPageSize % wordSize)
      else pages * hugeOsPageSize % wordSize) =
      recordedPages pages n * hugeOsPageSize := by
    rw [Nat.mod_eq_of_lt hfit, osGoodAllocSize_pages hpos, claimed_size]
    unfold recordedPages
    by_cases hzero : pages % 2 ^ 34 = 0
    · rw [if_pos hzero, hzero, Nat.zero_mul, if_pos rfl]
    · rw [if_neg hzero, if_neg]
      exact Nat.mul_ne_zero hzero hugeOsPageSize_pos.ne'
  have hrecorded : 0 < recordedPages pages n := by
    unfold recordedPages
    split <;> omega
  have hfree : osFreeEx os start (n * hugeOsPageSize % wordSize)
      stillCommitted
      (OsMemid.createHuge start (pages * hugeOsPageSize % wordSize) allZero)
      st = freeHugeOsPages start
        (recordedPages pages n * hugeOsPageSize) st := by
    rw [← hsize]
    exact osFreeEx_of_base rfl _ stillCommitted st
  rw [hfree, freeHugeOsPages_spec hstart hlt hrecorded]

/-! ## Releasing what was obtained -/

/-- Freeing the memory id releases the pages that were obtained and no others,
and the counters are then what they were before the allocation. -/
def ReleasedAsObtained (os : HugeOs) (pages : ℕ) (numaNode : ℤ)
    (maxMsecs : BitVec 64) (random : ℕ) (stillCommitted : Bool)
    (st : HugeState) : Prop :=
  let (result, st₁) := allocHugeOsPages os pages numaNode maxMsecs random st
  let st₂ := osFreeEx os result.ptr result.size stillCommitted result.memid st₁
  (∀ k < result.pagesReserved, os.Places numaNode result.ptr k) ∧
  result.size = result.pagesReserved * hugeOsPageSize ∧
  st₂.frees = st₁.frees ++ obtainedPages result.ptr result.pagesReserved ∧
  st₂.committed = st.committed ∧ st₂.reserved = st.reserved

theorem claimHugePages_start (pages random : ℕ) (st : HugeState) :
    0 < (claimHugePages pages random st).1 ∧
      (claimHugePages pages random st).1 < wordSize := by
  have hword : wordSize = 2 ^ 34 * hugeOsPageSize := by decide
  have hpage : hugeOsPageSize = 2 ^ 30 := by decide
  have hrandom : random % 4096 < 4096 := Nat.mod_lt _ (by decide)
  unfold claimHugePages
  dsimp only
  split
  · constructor
    · exact Nat.lt_of_lt_of_le (by decide) (Nat.le_add_right _ _)
    · rw [hword, hpage]
      omega
  · rename_i hstart
    exact ⟨Nat.pos_of_ne_zero hstart, st.hugeStart.isLt⟩

theorem HugeState.hugeStart_counters (w : Word) (st : HugeState) :
    ({ st with hugeStart := w } : HugeState).committed = st.committed ∧
      ({ st with hugeStart := w } : HugeState).reserved = st.reserved :=
  ⟨rfl, rfl⟩

theorem claimHugePages_counters (pages random : ℕ) (st : HugeState) :
    (claimHugePages pages random st).2.2.committed = st.committed ∧
      (claimHugePages pages random st).2.2.reserved = st.reserved := by
  unfold claimHugePages
  exact HugeState.hugeStart_counters _ st

theorem LoopEnd.placed (h : LoopEnd os numaNode maxMsecs start pages st n st') :
    os.Prefix numaNode maxMsecs start pages n := by
  cases h with
  | all hplaced => exact hplaced
  | stopped _ hstops _ => exact hstops.1
  | elsewhere _ _ hstops => exact hstops.1

/-- The allocation claims a range and runs the loop on it. -/
theorem allocHugeOsPages_spec (os : HugeOs) (pages : ℕ) (numaNode : ℤ)
    (maxMsecs : BitVec 64) (random : ℕ) (st : HugeState) :
    ∃ n allZero st',
      LoopEnd os numaNode maxMsecs (claimHugePages pages random st).1 pages
        (claimHugePages pages random st).2.2 n st' ∧
      allocHugeOsPages os pages numaNode maxMsecs random st =
        ({ ptr := if n = 0 then 0 else (claimHugePages pages random st).1
           pagesReserved := n
           size := n * hugeOsPageSize % wordSize
           memid :=
             if n ≠ 0 then
               OsMemid.createHuge (claimHugePages pages random st).1
                 (pages * hugeOsPageSize % wordSize) allZero
             else OsMemid.none }, st') := by
  obtain ⟨n, allZero, st', hloop, hend⟩ :=
    @allocHugeLoop_spec os numaNode maxMsecs
      (claimHugePages pages random st).1 pages true
      (claimHugePages pages random st).2.2 pages 0 (Nat.zero_add pages)
      ⟨fun k hk => absurd hk (Nat.not_lt_zero k),
        fun k _ hk => absurd hk (Nat.not_lt_zero k)⟩
      (fun h => absurd h (lt_irrefl 0))
  rw [HugeState.gain_zero] at hloop
  refine ⟨n, allZero, st', hend, ?_⟩
  unfold allocHugeOsPages
  dsimp only
  rw [hloop]
  rfl

/-- The pages that the memory id of `n` obtained pages frees. -/
def memidPages (start pages n : ℕ) : List (ℕ × ℕ) :=
  if n = 0 then [] else freedPages start (recordedPages pages n)

theorem osFreeEx_memidPages (hstart : 0 < start) (hlt : start < wordSize)
    (hplaced : os.Prefix numaNode maxMsecs start pages n)
    (stillCommitted : Bool) :
    osFreeEx os (if n = 0 then 0 else start) (n * hugeOsPageSize % wordSize)
      stillCommitted
      (if n ≠ 0 then
        OsMemid.createHuge start (pages * hugeOsPageSize % wordSize) allZero
      else OsMemid.none) st =
    st.release (memidPages start pages n) := by
  have hfit := (hplaced.exact hlt.le).1
  rcases Nat.eq_zero_or_pos n with rfl | hpos
  · have hnone (size : ℕ) :
        osFreeEx os 0 size stillCommitted OsMemid.none st = st := rfl
    simp [hnone, memidPages, HugeState.release]
  · unfold memidPages
    rw [if_neg hpos.ne', if_pos hpos.ne', if_neg hpos.ne',
      osFreeEx_huge hstart hlt hpos (by omega)]

theorem memidPages_eq_iff (hlt : start < wordSize)
    (hplaced : os.Prefix numaNode maxMsecs start pages n) :
    memidPages start pages n = obtainedPages (if n = 0 then 0 else start) n ↔
      n = 0 ∨ n ≤ recordedPages pages n ∧
        ∀ k, n ≤ k → k < recordedPages pages n → hugeAddr start k = 0 := by
  have haddr := (hplaced.exact hlt.le).2
  unfold memidPages
  rcases Nat.eq_zero_or_pos n with rfl | hpos
  · simp [obtainedPages]
  · rw [if_neg hpos.ne', if_neg hpos.ne', freedPages_eq_iff haddr]
    simp [hpos.ne']

theorem recordedPages_condition :
    (n ≤ recordedPages pages n ∧
      ∀ k, n ≤ k → k < recordedPages pages n → hugeAddr start k = 0) ↔
    pages % 2 ^ 34 = 0 ∨ n ≤ pages % 2 ^ 34 ∧
      ∀ k, n ≤ k → k < pages % 2 ^ 34 → hugeAddr start k = 0 := by
  unfold recordedPages
  by_cases hzero : pages % 2 ^ 34 = 0
  · rw [if_pos hzero]
    constructor
    · intro _
      exact Or.inl hzero
    · intro _
      exact ⟨le_rfl, fun k hlo hhi => absurd hhi (not_lt.mpr hlo)⟩
  · rw [if_neg hzero]
    constructor
    · exact Or.inr
    · rintro (h | h)
      · exact absurd h hzero
      · exact h

/-- The condition on the end of the loop under which the pages that were
obtained are the ones that are freed. -/
theorem released_iff (hstart : 0 < start) (hlt : start < wordSize)
    (hend : LoopEnd os numaNode maxMsecs start pages st n st') :
    (memidPages start pages n = obtainedPages (if n = 0 then 0 else start) n ∧
      st'.committed = st.committed + n * hugeOsPageSize ∧
      st'.reserved = st.reserved + n * hugeOsPageSize) ↔
    ∀ stop < pages, ∀ reason,
      os.StopsAfter numaNode maxMsecs start pages stop reason →
      reason ≠ .elsewhere ∧
      (stop = 0 ∨ pages % 2 ^ 34 = 0 ∨ stop ≤ pages % 2 ^ 34 ∧
        ∀ k, stop ≤ k → k < pages % 2 ^ 34 → hugeAddr start k = 0) := by
  rw [memidPages_eq_iff hlt hend.placed, recordedPages_condition]
  cases hend with
  | all hplaced =>
      have hfit := (hplaced.exact hlt.le).1
      have hword : wordSize = 2 ^ 34 * hugeOsPageSize := by decide
      have hfew : pages < 2 ^ 34 := by
        rw [hword] at hfit
        by_contra hmany
        have := Nat.mul_le_mul_right hugeOsPageSize (not_lt.mp hmany)
        omega
      constructor
      · intro _ stop hstop reason hstops
        exact absurd hstop (hstops.not_before hplaced)
      · intro _
        refine ⟨Or.inr (Or.inr ?_), rfl, rfl⟩
        rw [Nat.mod_eq_of_lt hfew]
        exact ⟨le_rfl, fun k hlo hhi => absurd hhi (not_lt.mpr hlo)⟩
  | @stopped n reason hless hstops hreason =>
      constructor
      · rintro ⟨hcond, -, -⟩ stop hstop reason' hstops'
        obtain ⟨rfl, rfl⟩ := hstops.unique hstops'
        exact ⟨hreason, hcond⟩
      · intro hcond
        exact ⟨(hcond _ hless _ hstops).2, rfl, rfl⟩
  | elsewhere hless hpos hstops =>
      constructor
      · rintro ⟨-, hcommitted, -⟩
        unfold HugeState.primFree HugeState.gain at hcommitted
        rw [if_neg hpos.ne', if_pos hugeOsPageSize_pos] at hcommitted
        dsimp only at hcommitted
        have := hugeOsPageSize_pos
        omega
      · intro hcond
        exact absurd rfl (hcond _ hless _ hstops).1

/-- When what `_pa_os_alloc_huge_os_pages` returns releases what it has
obtained.  Its memory id holds the size that was asked for, so all pages have
to be obtained, or none; the size of `2 ^ 34` pages wraps to 0, and a page at
the null address is not freed.  A page that is placed elsewhere is taken from
the counters, where it was never added. -/
theorem huge_os_pages_iff (os : HugeOs) (pages : ℕ) (numaNode : ℤ)
    (maxMsecs : BitVec 64) (random : ℕ) (stillCommitted : Bool)
    (st : HugeState) :
    ReleasedAsObtained os pages numaNode maxMsecs random stillCommitted st ↔
      ∀ stop < pages, ∀ reason,
        os.StopsAfter numaNode maxMsecs (claimHugePages pages random st).1
          pages stop reason →
        reason ≠ .elsewhere ∧
        (stop = 0 ∨ pages % 2 ^ 34 = 0 ∨ stop ≤ pages % 2 ^ 34 ∧
          ∀ k, stop ≤ k → k < pages % 2 ^ 34 →
            hugeAddr (claimHugePages pages random st).1 k = 0) := by
  obtain ⟨hstart, hlt⟩ := claimHugePages_start pages random st
  obtain ⟨n, allZero, st', hend, halloc⟩ :=
    allocHugeOsPages_spec os pages numaNode maxMsecs random st
  obtain ⟨hcommitted, hreserved⟩ := claimHugePages_counters pages random st
  rw [← released_iff hstart hlt hend, hcommitted, hreserved]
  unfold ReleasedAsObtained
  rw [halloc]
  generalize (claimHugePages pages random st).1 = start at *
  obtain ⟨hfit, -⟩ := hend.placed.exact hlt.le
  have hsize : n * hugeOsPageSize % wordSize = n * hugeOsPageSize :=
    Nat.mod_eq_of_lt (by omega)
  have hplaces : ∀ k < n,
      os.Places numaNode (if n = 0 then 0 else start) k := by
    intro k hk
    rw [if_neg (by omega)]
    exact hend.placed.places k hk
  dsimp only
  rw [osFreeEx_memidPages hstart hlt hend.placed]
  unfold HugeState.release
  dsimp only
  rw [List.append_cancel_left_eq]
  constructor
  · rintro ⟨-, -, hfrees, hcommitted', hreserved'⟩
    rw [hfrees, length_obtainedPages] at hcommitted' hreserved'
    exact ⟨hfrees, by omega, by omega⟩
  · rintro ⟨hfrees, hcommitted', hreserved'⟩
    rw [hfrees, length_obtainedPages]
    exact ⟨hplaces, hsize, rfl, by omega, by omega⟩

def onePageOs : HugeOs where
  sizes := ⟨4096, 0⟩
  answer _ page addr :=
    ⟨if page = 0 ∧ 0 < addr ∧ addr + hugeOsPageSize ≤ wordSize then some addr
      else none, true⟩
  elapsed _ := 0
  fits _ page addr p h := by
    dsimp only at h
    split at h
    · rename_i hroom
      cases h
      exact hroom.2
    · cases h

/-- Two pages are asked for and one is obtained; both are freed. -/
theorem huge_os_pages_second_refused :
    ¬ReleasedAsObtained onePageOs 2 0 0 0 true ⟨0, 0, 0, []⟩ := by
  rintro ⟨-, -, hfrees, -⟩
  exact absurd hfrees (by decide +kernel)

end Palloc
