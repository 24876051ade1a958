import Palloc.VecArenaRun

/-!
# A batch of a vector arena

`pa_vec_arena_alloc_batch` commits once for the whole batch.  Committing
rounds up to the next multiple of the grain, so it ends where the commits of
the single allocations end; and a batch that passes its checks passes them
after every one of its parts.
-/

namespace Palloc

open MachineWord

/-! ## The calls -/

def writePtrs (out : ℕ → ℕ) (ptrs : List ℕ) : ℕ → ℕ :=
  fun i => ptrs.getD i (out i)

namespace VecArena

/-- `pa_vec_arena_alloc_batch`: what it returns, the output array and the
arena. -/
def allocBatchInto (arena : VecArena) (out : ℕ → ℕ) (count size : ℕ)
    (commitOk hasAvx2 : Bool) : ℕ × (ℕ → ℕ) × VecArena :=
  let (ptrs, arena) := arena.allocBatch count size commitOk hasAvx2
  (ptrs.length, writePtrs out ptrs, arena)

/-- `count` calls of `pa_vec_arena_alloc`, all commits of which succeed. -/
def allocEach (arena : VecArena) (size : ℕ) :
    (count : ℕ) → List (Option ℕ) × VecArena
  | 0 => ([], arena)
  | count + 1 =>
      let (p, arena) := arena.alloc size true
      let (ptrs, arena) := arena.allocEach size count
      (p :: ptrs, arena)

/-! ## Where a commit ends -/

variable {arena arena' : VecArena} {newUsed bytes count size : ℕ}

/-- What is committed after an allocation up to `newUsed`. -/
def committedFor (arena : VecArena) (newUsed : ℕ) : ℕ :=
  if arena.committed < newUsed then
    min (exactAlignUp newUsed arena.commitGrain) arena.capacity
  else arena.committed

/-- The arena after an allocation up to `newUsed`. -/
def advancedTo (arena : VecArena) (newUsed : ℕ) : VecArena :=
  { arena with committed := arena.committedFor newUsed, used := newUsed }

structure Fits (arena : VecArena) (newUsed : ℕ) : Prop where
  capacity : newUsed ≤ arena.capacity
  maxSize : arena.maxSize ≠ 0 → newUsed ≤ arena.maxSize
  grain : arena.committed < newUsed →
    newUsed + arena.commitGrain - 1 < wordSize

theorem Fits.mono (hfits : arena.Fits newUsed) {lower : ℕ}
    (hle : lower ≤ newUsed) : arena.Fits lower := by
  refine ⟨hle.trans hfits.capacity, ?_, ?_⟩
  · intro hset
    exact hle.trans (hfits.maxSize hset)
  · intro hlow
    have hgrain := hfits.grain (hlow.trans_le hle)
    omega

theorem le_committedFor (hgrain : 0 < arena.commitGrain)
    (hfits : arena.Fits newUsed) : newUsed ≤ arena.committedFor newUsed := by
  unfold committedFor
  by_cases hlow : arena.committed < newUsed
  · rw [if_pos hlow]
    exact le_min (le_exactAlignUp hgrain) hfits.capacity
  · rw [if_neg hlow]
    exact not_lt.mp hlow

theorem committed_le_committedFor (hcommitted : arena.committed ≤ arena.capacity)
    (hgrain : 0 < arena.commitGrain) :
    arena.committed ≤ arena.committedFor newUsed := by
  unfold committedFor
  by_cases hlow : arena.committed < newUsed
  · rw [if_pos hlow]
    exact le_min (hlow.le.trans (le_exactAlignUp hgrain)) hcommitted
  · rw [if_neg hlow]

theorem committedFor_advancedTo {lower : ℕ} (hle : lower ≤ newUsed)
    (hgrain : 0 < arena.commitGrain) :
    (arena.advancedTo lower).committedFor newUsed =
      arena.committedFor newUsed := by
  have hlower : lower ≤ exactAlignUp lower arena.commitGrain :=
    le_exactAlignUp hgrain
  have hupper : newUsed ≤ exactAlignUp newUsed arena.commitGrain :=
    le_exactAlignUp hgrain
  have hround : exactAlignUp lower arena.commitGrain ≤
      exactAlignUp newUsed arena.commitGrain :=
    exactAlignUp_le_of_dvd (hle.trans hupper) (dvd_exactAlignUp _ _)
  -- a rounding that covers `newUsed` is the rounding of `newUsed`
  have hsame : newUsed ≤ exactAlignUp lower arena.commitGrain →
      exactAlignUp newUsed arena.commitGrain =
        exactAlignUp lower arena.commitGrain := fun hcover =>
    le_antisymm (exactAlignUp_le_of_dvd hcover (dvd_exactAlignUp _ _)) hround
  have hadvanced : (arena.advancedTo lower).committedFor newUsed =
      if arena.committedFor lower < newUsed then
        min (exactAlignUp newUsed arena.commitGrain) arena.capacity
      else arena.committedFor lower := rfl
  rw [hadvanced]
  unfold committedFor
  by_cases hlow : arena.committed < lower
  · rw [if_pos hlow, if_pos (hlow.trans_le hle)]
    by_cases hmore :
        min (exactAlignUp lower arena.commitGrain) arena.capacity < newUsed
    · rw [if_pos hmore]
    · rw [if_neg hmore]
      rw [not_lt, le_min_iff] at hmore
      rw [hsame hmore.1]
  · rw [if_neg hlow]

/-! ## The checks -/

theorem commitTo_eq (hgrain : 0 < arena.commitGrain)
    (hfits : arena.Fits newUsed) :
    arena.commitTo newUsed true =
      some { arena with committed := arena.committedFor newUsed } := by
  have hcover := le_committedFor hgrain hfits
  unfold commitTo committedFor at *
  by_cases hlow : arena.committed < newUsed
  · have hexact : wordAlignUp newUsed arena.commitGrain =
        exactAlignUp newUsed arena.commitGrain :=
      wordAlignUp_of_lt (hfits.grain hlow)
    have hround : newUsed ≤ exactAlignUp newUsed arena.commitGrain :=
      le_exactAlignUp hgrain
    rw [if_pos hlow] at hcover ⊢
    rw [if_pos hlow, hexact]
    dsimp only
    have hclamp : (if arena.capacity <
          exactAlignUp newUsed arena.commitGrain then arena.capacity
        else exactAlignUp newUsed arena.commitGrain) =
        min (exactAlignUp newUsed arena.commitGrain) arena.capacity := by
      by_cases hover :
          arena.capacity < exactAlignUp newUsed arena.commitGrain
      · rw [if_pos hover, min_eq_right hover.le]
      · rw [if_neg hover, min_eq_left (not_lt.mp hover)]
    rw [if_neg (not_lt.mpr hround), hclamp, if_pos (by omega), if_pos rfl]
  · rw [if_neg hlow, if_neg hlow]

theorem bump_eq (hvalid : arena.Valid) (hfits : arena.Fits (arena.used + bytes)) :
    arena.bump bytes true = some (arena.advancedTo (arena.used + bytes)) := by
  have hword : maxWord + 1 = wordSize := by decide
  have hbase := hvalid.basePos
  have hend := hvalid.capacityLe
  have hcapacity := hfits.capacity
  have hmax : ¬ (arena.maxSize ≠ 0 ∧ arena.maxSize < arena.used + bytes) :=
    fun hover => not_lt.mpr (hfits.maxSize hover.1) hover.2
  unfold bump
  rw [if_neg (by omega), Nat.mod_eq_of_lt (by omega)]
  dsimp only
  rw [if_neg (not_lt.mpr hcapacity), if_neg hmax,
    commitTo_eq hvalid.grainPos hfits]
  rfl

theorem commitTo_true {commitOk : Bool}
    (hcommit : arena.commitTo newUsed commitOk = some arena') :
    arena.commitTo newUsed true = some arena' := by
  cases commitOk with
  | true => exact hcommit
  | false =>
      unfold commitTo at hcommit ⊢
      by_cases hlow : arena.committed < newUsed
      · rw [if_pos hlow] at hcommit ⊢
        dsimp only at hcommit ⊢
        by_cases hwrap : wordAlignUp newUsed arena.commitGrain < newUsed
        · rw [if_pos hwrap] at hcommit
          cases hcommit
        · rw [if_neg hwrap] at hcommit ⊢
          generalize (if arena.capacity <
              wordAlignUp newUsed arena.commitGrain then arena.capacity
            else wordAlignUp newUsed arena.commitGrain) = need at hcommit ⊢
          by_cases hdelta : 0 < need - arena.committed
          · rw [if_pos hdelta] at hcommit
            cases hcommit
          · rw [if_neg hdelta] at hcommit ⊢
            exact hcommit
      · rw [if_neg hlow] at hcommit ⊢
        exact hcommit

theorem fits_of_bump {commitOk : Bool} (hvalid : arena.Valid)
    (hbump : arena.bump bytes commitOk = some arena') :
    arena.Fits (arena.used + bytes) ∧
      arena' = arena.advancedTo (arena.used + bytes) := by
  obtain ⟨committed, -, hused, -, hbound, hmax⟩ := hvalid.bump_spec hbump
  have hword : maxWord + 1 = wordSize := by decide
  have hbase := hvalid.basePos
  have hend := hvalid.capacityLe
  have hcapacity : arena.used + bytes ≤ arena.capacity := hused.trans hbound
  unfold bump at hbump
  rw [if_neg (by omega), Nat.mod_eq_of_lt (by omega)] at hbump
  dsimp only at hbump
  have hover : ¬ (arena.maxSize ≠ 0 ∧ arena.maxSize < arena.used + bytes) :=
    fun hover => not_lt.mpr (hmax hover.1) hover.2
  rw [if_neg (not_lt.mpr hcapacity), if_neg hover] at hbump
  have hfits : arena.Fits (arena.used + bytes) := by
    refine ⟨hcapacity, hmax, ?_⟩
    intro hlow
    by_contra hwrap
    have hzero := wordAlignUp_of_wrap (by omega) hvalid.grainLt.le
      (not_lt.mp hwrap)
    -- a rounding that wraps is refused
    unfold commitTo at hbump
    rw [if_pos hlow, hzero] at hbump
    dsimp only at hbump
    rw [if_pos (by omega)] at hbump
    cases hbump
  refine ⟨hfits, ?_⟩
  cases hcommit : arena.commitTo (arena.used + bytes) commitOk with
  | none =>
      rw [hcommit] at hbump
      cases hbump
  | some committedArena =>
      rw [hcommit] at hbump
      have htrue := commitTo_true hcommit
      rw [commitTo_eq hvalid.grainPos hfits] at htrue
      cases htrue
      exact (Option.some.inj hbump).symm

/-! ## One after another -/

theorem advancedTo_valid (hvalid : arena.Valid)
    (hfits : arena.Fits newUsed) (hdvd : arena.alignment ∣ newUsed) :
    (arena.advancedTo newUsed).Valid := by
  constructor
  · exact hvalid.alignmentPos
  · exact hvalid.alignmentLe
  · exact hvalid.basePos
  · exact hvalid.baseDvd
  · exact hdvd
  · exact le_committedFor hvalid.grainPos hfits
  · show arena.committedFor newUsed ≤ arena.capacity
    unfold committedFor
    split
    · exact min_le_right _ _
    · exact hvalid.committedLe
  · exact hvalid.capacityLe
  · exact hvalid.grainPos
  · exact hvalid.grainLt

theorem Fits.advancedTo {lower : ℕ} (hvalid : arena.Valid)
    (hfits : arena.Fits newUsed) :
    (arena.advancedTo lower).Fits newUsed := by
  refine ⟨hfits.capacity, hfits.maxSize, ?_⟩
  intro hlow
  exact hfits.grain
    ((committed_le_committedFor hvalid.committedLe hvalid.grainPos).trans_lt
      hlow)

theorem advancedTo_advancedTo {lower : ℕ} (hvalid : arena.Valid)
    (hle : lower ≤ newUsed) :
    (arena.advancedTo lower).advancedTo newUsed = arena.advancedTo newUsed := by
  have hcommitted := committedFor_advancedTo hle hvalid.grainPos
  unfold advancedTo at hcommitted ⊢
  rw [hcommitted]

theorem alloc_eq (hvalid : arena.Valid) (hsize : 0 < size)
    (hround : wordAlignUp size arena.alignment =
      exactAlignUp size arena.alignment)
    (hfits : arena.Fits (arena.used + exactAlignUp size arena.alignment)) :
    arena.alloc size true = (some (arena.base + arena.used),
      arena.advancedTo
        (arena.used + exactAlignUp size arena.alignment)) := by
  have hle : size ≤ exactAlignUp size arena.alignment :=
    le_exactAlignUp hvalid.alignmentPos
  have hcapacity := hfits.capacity
  have hend := hvalid.capacityLe
  unfold alloc
  rw [if_neg hsize.ne', hround]
  dsimp only
  rw [if_neg (not_lt.mpr hle), bump_eq hvalid hfits]
  dsimp only
  rw [Nat.mod_eq_of_lt (by omega)]

theorem advancedTo_used (hvalid : arena.Valid) :
    arena.advancedTo arena.used = arena := by
  unfold advancedTo committedFor
  rw [if_neg (not_lt.mpr hvalid.usedLe)]

/-- When the end of the last allocation fits, all succeed, and end where the
last one would end alone. -/
theorem allocEach_eq {step : ℕ} (hvalid : arena.Valid) (hsize : 0 < size)
    (hround : wordAlignUp size arena.alignment = step)
    (hstep : exactAlignUp size arena.alignment = step)
    (hfits : arena.Fits (arena.used + count * step)) :
    arena.allocEach size count =
      ((List.range count).map fun i =>
        some (arena.base + arena.used + i * step),
      arena.advancedTo (arena.used + count * step)) := by
  induction count generalizing arena with
  | zero =>
      rw [Nat.zero_mul, Nat.add_zero, advancedTo_used hvalid]
      rfl
  | succ count ih =>
      have hmul : arena.used + (count + 1) * step =
          arena.used + step + count * step := by ring
      rw [hmul] at hfits ⊢
      have hfirst : arena.Fits (arena.used + step) :=
        hfits.mono (Nat.le_add_right _ _)
      have hdvd : arena.alignment ∣ arena.used + step := by
        rw [← hstep]
        exact Nat.dvd_add hvalid.usedDvd (dvd_exactAlignUp _ _)
      have halloc : arena.alloc size true = (some (arena.base + arena.used),
          arena.advancedTo (arena.used + step)) := by
        subst hstep
        exact alloc_eq hvalid hsize hround hfirst
      have hrest := @ih (arena.advancedTo (arena.used + step))
        (advancedTo_valid hvalid hfirst hdvd) hround hstep
        (hfits.advancedTo hvalid)
      have hused : (arena.advancedTo (arena.used + step)).used =
          arena.used + step := rfl
      have hbase : (arena.advancedTo (arena.used + step)).base =
          arena.base := rfl
      rw [hused, hbase, advancedTo_advancedTo hvalid (Nat.le_add_right _ _)]
        at hrest
      unfold allocEach
      rw [halloc]
      dsimp only
      rw [hrest, List.range_succ_eq_map, List.map_cons, List.map_map]
      have hshift : (fun i => some
            (arena.base + (arena.used + step) + i * step)) =
          (fun i => some (arena.base + arena.used + i * step)) ∘
            Nat.succ := by
        funext i
        dsimp only [Function.comp]
        congr 1
        rw [Nat.succ_mul]
        omega
      rw [hshift, Nat.zero_mul, Nat.add_zero]

/-- A batch that succeeds is as many allocations; one that does not changes
nothing. -/
theorem Valid.allocBatchInto_spec (hvalid : arena.Valid)
    (hword : size < wordSize) (out : ℕ → ℕ) (count : ℕ)
    (commitOk hasAvx2 : Bool) :
    arena.allocBatchInto out count size commitOk hasAvx2 = (0, out, arena) ∨
    ∃ ptrs : List ℕ, ptrs.length = count ∧
      arena.allocBatchInto out count size commitOk hasAvx2 =
        (count, writePtrs out ptrs, (arena.allocEach size count).2) ∧
      (arena.allocEach size count).1 = ptrs.map some := by
  unfold allocBatchInto allocBatch
  by_cases hnone : count = 0 ∨ size = 0
  · rw [if_pos hnone]
    exact .inl rfl
  rw [if_neg hnone]
  dsimp only
  by_cases hsmall : wordAlignUp size arena.alignment < size
  · rw [if_pos hsmall]
    exact .inl rfl
  rw [if_neg hsmall]
  have hsize : 0 < size := Nat.pos_of_ne_zero fun hzero => hnone (.inr hzero)
  have hround := hvalid.alignedSize_eq hsize hword hsmall
  have hle : size ≤ exactAlignUp size arena.alignment :=
    le_exactAlignUp hvalid.alignmentPos
  rw [hround]
  cases htotal :
      countSizeOverflow count (exactAlignUp size arena.alignment) with
  | none => exact .inl rfl
  | some totalBytes =>
      dsimp only
      cases hbump : arena.bump totalBytes commitOk with
      | none => exact .inl rfl
      | some arena' =>
          obtain rfl := countSizeOverflow_eq htotal
          obtain ⟨hfits, rfl⟩ := fits_of_bump hvalid hbump
          have heach := allocEach_eq hvalid hsize hround rfl hfits
          have hend := hvalid.capacityLe
          have hcapacity := hfits.capacity
          have hcount : 0 < count :=
            Nat.pos_of_ne_zero fun hzero => hnone (.inl hzero)
          have hmul := Nat.le_mul_of_pos_left
            (exactAlignUp size arena.alignment) hcount
          have hlt : arena.base + arena.used < wordSize := by omega
          right
          refine ⟨(List.range count).map fun i => arena.base + arena.used +
            i * exactAlignUp size arena.alignment, ?_, ?_, ?_⟩
          · rw [List.length_map, List.length_range]
          · rw [heach, Nat.mod_eq_of_lt hlt,
              materializePtrs_eq hasAvx2 _ count hlt,
              pointerStream_exact (by omega) (by omega)]
            dsimp only
            rw [List.length_map, List.length_range]
          · rw [heach, List.map_map]
            rfl

end VecArena

/-! ## In every state of an arena -/

/-- In every state of an arena that was created: a batch writes the pointers
that as many allocations return and ends where they end, or it changes
nothing; and the kernels that write pointers all write the same. -/
theorem vec_arena_alloc_batch {os : PrimOs} {heap : Option ℕ}
    {structOk : Bool} {initialSize alignment : Word} {created : VecArena}
    (hcreate : vecArenaCreateEx os heap structOk initialSize alignment =
      some created)
    (calls : List VecCall) (arena : VecArena)
    (harena : arena = (calls.foldl VecState.call ⟨created, []⟩).arena) :
    (∀ (out : ℕ → ℕ) (count size : Word) (commitOk hasAvx2 : Bool)
      (result : ℕ) (out' : ℕ → ℕ) (arena' : VecArena),
      arena.allocBatchInto out count size commitOk hasAvx2 =
        (result, out', arena') →
      (result = count.val ∨ result = 0) ∧
      (result = count.val → ∃ ptrs : List ℕ,
        arena.allocEach size count = (ptrs.map some, arena') ∧
        ptrs.length = count.val ∧ out' = writePtrs out ptrs) ∧
      (result = 0 → arena' = arena ∧ out' = out)) ∧
    ∀ (base step : Word) (count : ℕ) (hasAvx2 : Bool),
      materializePtrsAvx2 base step count =
        pointerStream base step count ∧
      materializePtrsScalar base step count =
        pointerStream base step count ∧
      materializePtrs hasAvx2 base step count =
        pointerStream base step count := by
  constructor
  · intro out count size commitOk hasAvx2 result out' arena' hcall
    have hvalid : arena.Valid := by
      rw [harena]
      exact ((VecInvariant.initial
        (vecArenaCreateEx_spec alignment.isLt hcreate).1).run calls).valid
    rcases hvalid.allocBatchInto_spec size.isLt out count commitOk hasAvx2 with
      hnone | ⟨ptrs, hlength, hsome, heach⟩
    · rw [hnone] at hcall
      cases hcall
      refine ⟨.inr rfl, ?_, fun _ => ⟨rfl, rfl⟩⟩
      intro hzero
      refine ⟨[], ?_, hzero, rfl⟩
      rw [← hzero]
      rfl
    · rw [hsome] at hcall
      cases hcall
      refine ⟨.inl rfl, fun _ => ⟨ptrs, ?_, hlength, rfl⟩, ?_⟩
      · rw [← heach]
      · intro hzero
        rw [hzero] at hlength ⊢
        rw [List.eq_nil_of_length_eq_zero hlength]
        exact ⟨rfl, rfl⟩
  · intro base step count hasAvx2
    exact ⟨materializePtrsAvx2_eq step count base.isLt,
      materializePtrsScalar_eq step count base.isLt,
      materializePtrs_eq hasAvx2 step count base.isLt⟩

theorem vec_arena_alloc_batch_pageArena :
    ∃ ptrs : List ℕ,
      (pageArena.reset.allocEach (70 : Word).val (3 : Word).val).1 =
        ptrs.map some ∧ ptrs.length = 3 := by
  obtain ⟨-, hbatch, -⟩ := (vec_arena_alloc_batch vecArenaCreateEx_pageOs
    [.reset] pageArena.reset rfl).1 (fun _ => 0) 3 70 true false _ _ _ rfl
  obtain ⟨ptrs, heach, hlength, -⟩ := hbatch (by decide +kernel)
  exact ⟨ptrs, congrArg Prod.fst heach, hlength⟩

end Palloc
