import Palloc.VecArena

/-!
# Runs of the vector arena

The invariant bounds `used` by `committed`, `committed` by the capacity and
the end of the capacity by the address space.  Under it the checks of a call
are exact: a call that passes them advances `used` by the unbounded rounding
of its size and its pointers are the sums without wrapping, and a call that
does not leaves the arena as it was.
-/

namespace Palloc

open MachineWord

structure VecArena.Valid (arena : VecArena) : Prop where
  alignmentPos : 0 < arena.alignment
  alignmentLe : arena.alignment ≤ wordSize
  basePos : 0 < arena.base
  baseDvd : arena.alignment ∣ arena.base
  usedDvd : arena.alignment ∣ arena.used
  usedLe : arena.used ≤ arena.committed
  committedLe : arena.committed ≤ arena.capacity
  capacityLe : arena.base + arena.capacity ≤ wordSize
  grainPos : 0 < arena.commitGrain
  grainLt : arena.commitGrain < wordSize

/-! ## Creation -/

structure VecArena.Created (os : PrimOs) (initialSize alignment : ℕ)
    (arena : VecArena) : Prop where
  alignment_eq : arena.alignment = alignment
  capacity_eq : arena.capacity = exactAlignUp initialSize os.pageSize
  osBlockLe : arena.osBlock ≤ arena.base
  endLe :
    arena.base + arena.capacity ≤ arena.osBlock + arena.osBlockSize
  usedZero : arena.used = 0
  noCap : arena.maxSize = 0

theorem aligned_base_spec {osBlock alignment capacity k : ℕ}
    (hpow : alignment = 2 ^ k)
    (hroom : osBlock + (capacity + alignment) ≤ wordSize) :
    let base :=
      if osBlock &&& (alignment - 1) ≠ 0 then wordAlignUp osBlock alignment
      else osBlock
    alignment ∣ base ∧ osBlock ≤ base ∧ base < osBlock + alignment := by
  have hpos : 0 < alignment := by
    rw [hpow]
    exact Nat.two_pow_pos k
  have hmask : osBlock &&& (alignment - 1) = osBlock % alignment := by
    rw [hpow]
    exact and_pred_pow osBlock k
  intro base
  by_cases hmod : osBlock % alignment = 0
  · have hbase : base = osBlock := by
      simp [base, hmask, hmod]
    rw [hbase]
    exact ⟨Nat.dvd_of_mod_eq_zero hmod, le_rfl, by omega⟩
  · have hbase : base = exactAlignUp osBlock alignment := by
      have hexact : wordAlignUp osBlock alignment =
          exactAlignUp osBlock alignment :=
        wordAlignUp_of_lt (by omega)
      simp [base, hmask, hmod, hexact]
    rw [hbase]
    exact ⟨dvd_exactAlignUp _ _, le_exactAlignUp hpos, exactAlignUp_lt hpos⟩

/-- The reservation has room for the capacity wherever it starts. -/
theorem vecArenaInit_spec {os : PrimOs}
    {initialSize alignment capacity extra osBlock k : ℕ}
    (hpow : alignment = 2 ^ k) (hk : k < 64)
    (hcapacity : capacity = exactAlignUp initialSize os.pageSize)
    (hpos : 0 < capacity)
    (hextra : extra = if os.pageSize < alignment then alignment else 0)
    (hstart : 0 < osBlock) (hdvd : os.pageSize ∣ osBlock)
    (hroom : osBlock + (capacity + extra) ≤ wordSize) :
    let arena :=
      vecArenaInit os alignment capacity extra (capacity + extra) osBlock
    arena.Valid ∧ arena.Created os initialSize alignment := by
  have halignpos : 0 < alignment := by
    rw [hpow]
    exact Nat.two_pow_pos k
  have halignle : alignment ≤ wordSize := by
    rw [hpow]
    exact Nat.pow_le_pow_right (by decide) (by omega)
  obtain ⟨base, hbase, hbasedvd, hle, hend⟩ : ∃ base,
      base = (if 0 < extra ∧ osBlock &&& (alignment - 1) ≠ 0 then
        wordAlignUp osBlock alignment else osBlock) ∧
      alignment ∣ base ∧ osBlock ≤ base ∧
      base + capacity ≤ osBlock + (capacity + extra) := by
    refine ⟨_, rfl, ?_⟩
    by_cases hpage : os.pageSize < alignment
    · rw [if_pos hpage] at hextra
      subst hextra
      have haligned := aligned_base_spec hpow hroom
      simp only [halignpos, true_and]
      exact ⟨haligned.1, haligned.2.1, by have := haligned.2.2; omega⟩
    · rw [if_neg hpage] at hextra
      subst hextra
      simp only [lt_irrefl, false_and, if_false]
      refine ⟨dvd_trans ?_ hdvd, le_rfl, le_rfl⟩
      rw [hpow] at hpage ⊢
      exact pow_dvd_pow 2
        ((Nat.pow_le_pow_iff_right (by decide)).mp (not_lt.mp hpage))
  have hgrain := os.commitGrain_spec
  intro arena
  have hfinal : arena.base = base ∧ arena.capacity = capacity := by
    have harena : arena.base = base := hbase.symm
    refine ⟨harena, ?_⟩
    have hslop : base - osBlock < capacity + extra := by omega
    have hactual : ¬ capacity + extra - (base - osBlock) < capacity := by omega
    show (if _ then _ else _) = capacity
    rw [← hbase, if_pos hslop, if_neg hactual]
  have hcommitted : arena.committed ≤ arena.capacity := by
    show (if os.virtualReserve ∧ 0 < arena.capacity then
        if os.commitGrain < arena.capacity then os.commitGrain
        else arena.capacity
      else if os.virtualReserve then 0 else arena.capacity) ≤ arena.capacity
    split
    · split
      · exact le_of_lt ‹_›
      · exact le_rfl
    · split
      · exact Nat.zero_le _
      · exact le_rfl
  constructor
  · constructor
    · exact halignpos
    · exact halignle
    · rw [hfinal.1]
      exact hstart.trans_le hle
    · rw [hfinal.1]
      exact hbasedvd
    · exact dvd_zero alignment
    · exact Nat.zero_le _
    · exact hcommitted
    · rw [hfinal.1, hfinal.2]
      exact hend.trans hroom
    · exact hgrain.1
    · exact hgrain.2
  · constructor
    · rfl
    · rw [hfinal.2]
      exact hcapacity
    · rw [hfinal.1]
      exact hle
    · rw [hfinal.1, hfinal.2]
      exact hend
    · rfl
    · rfl

theorem vecArenaCreateEx_spec {os : PrimOs} {heap : Option ℕ} {structOk : Bool}
    {initialSize alignment : ℕ} {arena : VecArena}
    (halignment : alignment < wordSize)
    (hcreate :
      vecArenaCreateEx os heap structOk initialSize alignment = some arena) :
    arena.Valid ∧ arena.Created os initialSize alignment := by
  have hpage := os.pageSize_pos
  have hpagele := os.pageSize_le
  unfold vecArenaCreateEx at hcreate
  split at hcreate
  · cases hcreate
  rename_i hnull
  split at hcreate
  · cases hcreate
  rename_i hand
  dsimp only at hcreate
  split at hcreate
  · cases hcreate
  rename_i hinitial
  have hpos : 0 < alignment := by
    apply Nat.pos_of_ne_zero
    intro hzero
    exact hnull (Or.inr (Or.inr hzero))
  rcases exists_pow_of_and_pred hpos (not_not.mp hand) with ⟨k, hpow⟩
  have hcapacity : wordAlignUp initialSize os.pageSize =
      exactAlignUp initialSize os.pageSize := by
    apply wordAlignUp_of_lt
    unfold maxWord at hinitial
    omega
  rw [hcapacity] at hcreate
  have hinit : initialSize ≤ exactAlignUp initialSize os.pageSize :=
    le_exactAlignUp hpage
  have hinitpos : initialSize ≠ 0 := fun hzero =>
    hnull (Or.inr (Or.inl hzero))
  have hexact : exactAlignUp initialSize os.pageSize ≤ maxWord := by
    have hlt : exactAlignUp initialSize os.pageSize <
        initialSize + os.pageSize := exactAlignUp_lt hpage
    unfold maxWord wordSize at *
    omega
  generalize hextra : (if os.pageSize < alignment then alignment else 0) =
    extra at hcreate
  generalize (if os.pageSize < alignment then alignment else os.pageSize) =
    tryAlign at hcreate
  split at hcreate
  · cases hcreate
  split at hcreate
  · cases hcreate
  split at hcreate
  · cases hcreate
  rcases Option.map_eq_some_iff.mp hcreate with ⟨osBlock, halloc, rfl⟩
  have hsum : exactAlignUp initialSize os.pageSize + extra < wordSize := by
    have hword : maxWord + 1 = wordSize := by decide
    omega
  rw [Nat.mod_eq_of_lt hsum] at halloc ⊢
  rcases os.alloc_spec _ _ _ halloc with ⟨-, hstart, hdvd, hroom⟩
  have hk : k < 64 := by
    rw [hpow] at halignment
    exact (Nat.pow_lt_pow_iff_right (by decide)).mp halignment
  exact vecArenaInit_spec hpow hk rfl (by omega) hextra.symm hstart hdvd hroom

/-! ## One call -/

variable {arena arena' : VecArena}

theorem VecArena.Valid.commitTo_spec {newUsed : ℕ} {commitOk : Bool}
    (hvalid : arena.Valid) (hcapacity : newUsed ≤ arena.capacity)
    (hcommit : arena.commitTo newUsed commitOk = some arena') :
    ∃ committed, arena' = { arena with committed := committed } ∧
      newUsed ≤ committed ∧ arena.committed ≤ committed ∧
      committed ≤ arena.capacity := by
  have hcommitted := hvalid.committedLe
  unfold VecArena.commitTo at hcommit
  by_cases hlow : arena.committed < newUsed
  · rw [if_pos hlow] at hcommit
    dsimp only at hcommit
    generalize wordAlignUp newUsed arena.commitGrain = need at hcommit
    split at hcommit
    · cases hcommit
    rename_i hneed
    generalize hclamp :
      (if arena.capacity < need then arena.capacity else need) = clamped
      at hcommit
    have hbounds : newUsed ≤ clamped ∧ clamped ≤ arena.capacity := by
      rw [← hclamp]
      split <;> omega
    split at hcommit
    · split at hcommit
      · injection hcommit with hcommit
        exact ⟨clamped, hcommit.symm, hbounds.1, by omega, hbounds.2⟩
      · cases hcommit
    · omega
  · rw [if_neg hlow] at hcommit
    injection hcommit with hcommit
    subst hcommit
    exact ⟨arena.committed, rfl, not_lt.mp hlow, le_rfl, hcommitted⟩

/-- A call that passes all checks advances by exactly its bytes. -/
theorem VecArena.Valid.bump_spec {bytes : ℕ} {commitOk : Bool}
    (hvalid : arena.Valid)
    (hbump : arena.bump bytes commitOk = some arena') :
    ∃ committed,
      arena' = { arena with
        committed := committed, used := arena.used + bytes } ∧
      arena.used + bytes ≤ committed ∧ arena.committed ≤ committed ∧
      committed ≤ arena.capacity ∧
      (arena.maxSize ≠ 0 → arena.used + bytes ≤ arena.maxSize) := by
  have hword : maxWord + 1 = wordSize := by decide
  have hused := hvalid.usedLe
  have hcommitted := hvalid.committedLe
  have hcapacity := hvalid.capacityLe
  have hbase := hvalid.basePos
  unfold VecArena.bump at hbump
  split at hbump
  · cases hbump
  rename_i hroom
  dsimp only at hbump
  rw [Nat.mod_eq_of_lt (by omega)] at hbump
  split at hbump
  · cases hbump
  rename_i hcap
  split at hbump
  · cases hbump
  rename_i hmax
  cases hcommit : arena.commitTo (arena.used + bytes) commitOk with
  | none => simp [hcommit] at hbump
  | some committedArena =>
      simp only [hcommit, Option.some.injEq] at hbump
      rcases hvalid.commitTo_spec (not_lt.mp hcap) hcommit with
        ⟨committed, rfl, hle, hmono, hbound⟩
      refine ⟨committed, hbump.symm, hle, hmono, hbound, ?_⟩
      intro hset
      exact not_lt.mp fun hlt => hmax ⟨hset, hlt⟩

/-- A successful call: `count` pointers one rounded size apart, from the old
`used` on, with every sum taken without a bound on words. -/
structure VecArena.Advance (arena : VecArena) (count size : ℕ)
    (ptrs : List ℕ) (arena' : VecArena) : Prop where
  sizePos : 0 < size
  ptrs_eq : ptrs = (List.range count).map fun i =>
    arena.base + arena.used + i * exactAlignUp size arena.alignment
  used_eq :
    arena'.used = arena.used + count * exactAlignUp size arena.alignment
  same : arena' = { arena with
    committed := arena'.committed, used := arena'.used }
  usedLe : arena'.used ≤ arena'.committed
  committedLe : arena'.committed ≤ arena.capacity
  committedMono : arena.committed ≤ arena'.committed
  maxLe : arena.maxSize ≠ 0 → arena'.used ≤ arena.maxSize

theorem VecArena.Valid.advance {bytes count size : ℕ} {commitOk : Bool}
    (hvalid : arena.Valid) (hsize : 0 < size)
    (hbytes : bytes = count * exactAlignUp size arena.alignment)
    (hbump : arena.bump bytes commitOk = some arena') :
    arena.Advance count size
      ((List.range count).map fun i =>
        arena.base + arena.used + i * exactAlignUp size arena.alignment)
      arena' := by
  rcases hvalid.bump_spec hbump with
    ⟨committed, rfl, hused, hmono, hbound, hmax⟩
  rw [hbytes] at hused hmax
  constructor
  · exact hsize
  · rfl
  · show arena.used + bytes = _
    rw [hbytes]
  · rfl
  · show arena.used + bytes ≤ committed
    rw [hbytes]
    exact hused
  · exact hbound
  · exact hmono
  · show arena.maxSize ≠ 0 → arena.used + bytes ≤ arena.maxSize
    rw [hbytes]
    exact hmax

theorem VecArena.Valid.alignedSize_eq {size : ℕ} (hvalid : arena.Valid)
    (hpos : 0 < size) (hword : size < wordSize)
    (hle : ¬ wordAlignUp size arena.alignment < size) :
    wordAlignUp size arena.alignment = exactAlignUp size arena.alignment :=
  wordAlignUp_eq_exact hpos hword hvalid.alignmentLe (not_lt.mp hle)

theorem VecArena.Valid.alloc_spec {size : ℕ} (hvalid : arena.Valid)
    (hword : size < wordSize) (commitOk : Bool) :
    arena.alloc size commitOk = (none, arena) ∨
      ∃ p arena', arena.alloc size commitOk = (some p, arena') ∧
        arena.Advance 1 size [p] arena' := by
  unfold VecArena.alloc
  split
  · exact Or.inl rfl
  rename_i hzero
  have hpos : 0 < size := Nat.pos_of_ne_zero hzero
  dsimp only
  split
  · exact Or.inl rfl
  rename_i hround
  rw [hvalid.alignedSize_eq hpos hword hround]
  cases hbump : arena.bump (exactAlignUp size arena.alignment) commitOk with
  | none => exact Or.inl rfl
  | some arena' =>
      have hadvance := hvalid.advance hpos (Nat.one_mul _).symm hbump
      have hlt : arena.base + arena.used < wordSize := by
        have hused := hadvance.used_eq
        have hle := hadvance.usedLe
        have hcommitted := hadvance.committedLe
        have hcapacity := hvalid.capacityLe
        have hround : size ≤ exactAlignUp size arena.alignment :=
          le_exactAlignUp hvalid.alignmentPos
        omega
      refine Or.inr ⟨_, arena', rfl, ?_⟩
      rw [Nat.mod_eq_of_lt hlt]
      simpa using hadvance

theorem countSizeOverflow_eq {count size totalBytes : ℕ}
    (hcount : countSizeOverflow count size = some totalBytes) :
    totalBytes = count * size := by
  unfold countSizeOverflow at hcount
  split at hcount
  · rename_i hone
    injection hcount with hcount
    rw [hone, Nat.one_mul, hcount]
  · split at hcount
    · cases hcount
    · injection hcount with hcount
      exact hcount.symm

theorem pointerStream_exact {base step count : ℕ} (hstep : 0 < step)
    (hend : base + count * step ≤ wordSize) :
    pointerStream base step count =
      (List.range count).map fun i => base + i * step := by
  apply List.map_congr_left
  intro i hi
  apply Nat.mod_eq_of_lt
  have hmul : (i + 1) * step ≤ count * step :=
    Nat.mul_le_mul_right step (List.mem_range.mp hi)
  rw [Nat.add_mul, Nat.one_mul] at hmul
  omega

theorem VecArena.Valid.allocBatch_spec {size : ℕ} (hvalid : arena.Valid)
    (hword : size < wordSize) (count : ℕ) (commitOk hasAvx2 : Bool) :
    arena.allocBatch count size commitOk hasAvx2 = ([], arena) ∨
      ∃ ptrs arena',
        arena.allocBatch count size commitOk hasAvx2 = (ptrs, arena') ∧
        arena.Advance count size ptrs arena' := by
  unfold VecArena.allocBatch
  split
  · exact Or.inl rfl
  rename_i hzero
  have hcountpos : 0 < count :=
    Nat.pos_of_ne_zero fun h => hzero (Or.inl h)
  have hpos : 0 < size := Nat.pos_of_ne_zero fun h => hzero (Or.inr h)
  dsimp only
  split
  · exact Or.inl rfl
  rename_i hround
  rw [hvalid.alignedSize_eq hpos hword hround]
  cases htotal :
      countSizeOverflow count (exactAlignUp size arena.alignment) with
  | none => exact Or.inl rfl
  | some totalBytes =>
      have hbytes := countSizeOverflow_eq htotal
      cases hbump : arena.bump totalBytes commitOk with
      | none => simp [hbump]
      | some arena' =>
          have hadvance := hvalid.advance hpos hbytes hbump
          have hround : size ≤ exactAlignUp size arena.alignment :=
            le_exactAlignUp hvalid.alignmentPos
          have hend : arena.base + arena.used +
              count * exactAlignUp size arena.alignment ≤ wordSize := by
            have hused := hadvance.used_eq
            have hle := hadvance.usedLe
            have hcommitted := hadvance.committedLe
            have hcapacity := hvalid.capacityLe
            omega
          have hlt : arena.base + arena.used < wordSize := by
            have hmul := Nat.le_mul_of_pos_left
              (exactAlignUp size arena.alignment) hcountpos
            omega
          refine Or.inr ⟨_, arena', by simp only [hbump]; rfl, ?_⟩
          rw [Nat.mod_eq_of_lt hlt, materializePtrs_eq hasAvx2 _ count hlt,
            pointerStream_exact (by omega) hend]
          exact hadvance

end Palloc
