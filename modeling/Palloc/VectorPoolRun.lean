import Palloc.VectorPoolSteps

/-!
# Runs of a vector pool

Two kinds of runs.  In a `PoolRun` the caller frees live slots in any way,
also a contiguous run piece by piece; the bookkeeping of the slabs is about
these.  In an `AllocationRun` the caller gives back what it got; the ranges of
the live allocations are about these.  They are disjoint unless the rounding
of the object size wraps around.
-/

namespace Palloc

open MachineWord BitSlots

/-! ## Creation -/

/-- Every slab of `pa_vec_pool_create` gets memory that is not in use. -/
def FreshSlabs (objectSize initialCount : ℕ)
    (mem : ℕ → Option SlabMemory) : Prop :=
  ∀ s < (initialCount + 63) % wordSize / 64, ∀ m, mem s = some m →
    (createSlabs mem s ⟨realObjectSize objectSize, [], none⟩).Fresh m

theorem createSlabs_objectSize (mem : ℕ → Option SlabMemory) (count : ℕ)
    (pool : VecPool) :
    (createSlabs mem count pool).objectSize = pool.objectSize := by
  induction count with
  | zero => rfl
  | succ count ih =>
      unfold createSlabs
      dsimp only
      split
      · exact ih
      · exact ih

theorem createSlabs_invariant {mem : ℕ → Option SlabMemory} {count size : ℕ}
    (hsize : 0 < size)
    (hfresh : ∀ s < count, ∀ m, mem s = some m →
      (createSlabs mem s ⟨size, [], none⟩).Fresh m) :
    PoolInvariant (createSlabs mem count ⟨size, [], none⟩) ∅ := by
  induction count with
  | zero =>
      constructor
      · exact hsize
      · exact List.nodup_nil
      · intro self hself
        cases hself
      · intro slab hslab
        cases hslab
      · intro slab hslab
        cases hslab
      · intro slab hslab
        cases hslab
      · intro slab hslab
        cases hslab
      · intro p
        simp [createSlabs]
  | succ count ih =>
      have hpool := ih fun s hs => hfresh s (by omega)
      unfold createSlabs
      dsimp only
      split
      · exact hpool
      · rename_i slab hcreate
        have hprepend := hpool.prepend (hfresh count (by omega)) hcreate
        exact hprepend.1.withActive ⟨slab, List.mem_cons_self, rfl⟩

theorem vecPoolCreate_spec {objectSize initialCount : ℕ} {poolOk : Bool}
    {mem : ℕ → Option SlabMemory} {pool : VecPool}
    (hcreate : vecPoolCreate objectSize initialCount poolOk mem = some pool)
    (hfresh : FreshSlabs objectSize initialCount mem) :
    pool.objectSize = realObjectSize objectSize ∧
      (0 < pool.objectSize → PoolInvariant pool ∅) := by
  unfold vecPoolCreate at hcreate
  split at hcreate
  · cases hcreate
  split at hcreate
  · cases hcreate
  injection hcreate with hcreate
  subst hcreate
  rw [createSlabs_objectSize]
  refine ⟨rfl, ?_⟩
  intro hsize
  exact createSlabs_invariant hsize hfresh

/-! ## Slots -/

/-- The live slots after an allocation of `count` slots. -/
def liveAfter (objectSize count : ℕ) (live : Finset ℕ) :
    Option ℕ → Finset ℕ
  | none => live
  | some p => live ∪ runAddresses objectSize p count

/-- The pools that calls can lead to, with the addresses of the live slots.
Any live slot may be freed by itself, and so may any live slots in a row of
one slab. -/
inductive PoolRun : VecPool → Finset ℕ → Prop
  | create {objectSize initialCount : Word} {poolOk : Bool}
      {mem : ℕ → Option SlabMemory} {pool : VecPool}
      (hcreate : vecPoolCreate objectSize initialCount poolOk mem = some pool)
      (hfresh : FreshSlabs objectSize initialCount mem)
      (hsize : 0 < pool.objectSize) : PoolRun pool ∅
  | alloc {pool : VecPool} {live : Finset ℕ} (hrun : PoolRun pool live)
      (mem : Option SlabMemory) (hfresh : ∀ m, mem = some m → pool.Fresh m) :
      PoolRun (pool.alloc mem).2
        (liveAfter pool.objectSize 1 live (pool.alloc mem).1)
  | free {pool : VecPool} {live : Finset ℕ} (hrun : PoolRun pool live)
      {p : ℕ} (hp : p ∈ live) :
      PoolRun (pool.free p) (live \ runAddresses pool.objectSize p 1)
  | allocContiguous {pool : VecPool} {live : Finset ℕ}
      (hrun : PoolRun pool live) (count : Word) (mem : Option SlabMemory)
      (hfresh : ∀ m, mem = some m → pool.Fresh m) :
      PoolRun (pool.allocContiguous count mem).2
        (liveAfter pool.objectSize count live
          (pool.allocContiguous count mem).1)
  | freeContiguous {pool : VecPool} {live : Finset ℕ}
      (hrun : PoolRun pool live) {p slot : ℕ} {count : Word} {slab : VecSlab}
      (hslab : slab ∈ pool.slabs) (hcount : 0 < count.val)
      (hfit : slot + count.val ≤ 64)
      (hp : p = slab.data + slot * pool.objectSize)
      (hlive : runAddresses pool.objectSize p count ⊆ live) :
      PoolRun (pool.freeContiguous p count)
        (live \ runAddresses pool.objectSize p count)

theorem PoolRun.invariant {pool : VecPool} {live : Finset ℕ}
    (hrun : PoolRun pool live) : PoolInvariant pool live := by
  induction hrun with
  | create hcreate hfresh hsize =>
      exact (vecPoolCreate_spec hcreate hfresh).2 hsize
  | alloc hrun mem hfresh ih =>
      rcases ih.alloc_spec hfresh with ⟨hnull, _⟩ | ⟨p, pool', halloc, hspec⟩
      · rw [hnull]
        exact ih
      · rw [halloc]
        exact hspec.invariant
  | free hrun hp ih => exact (ih.free_spec hp).invariant
  | allocContiguous hrun count mem hfresh ih =>
      rcases ih.allocContiguous_spec count.val hfresh with
        hnull | ⟨p, pool', halloc, -, hspec⟩
      · rw [hnull]
        exact ih
      · rw [halloc]
        exact hspec.invariant
  | freeContiguous hrun hslab hcount hfit hp hlive ih =>
      exact (ih.freeContiguous_spec hslab hcount hfit hp hlive).invariant

/-- In every state: the bits of a slab are its live slots and its counter
counts the other ones, the cursor is a slab of the list, an allocation never
searches a full slab and fails only when the heap gives no slab, and a
contiguous allocation is a run of free slots of one slab. -/
theorem pool_bookkeeping {pool : VecPool} {live : Finset ℕ}
    (hrun : PoolRun pool live) :
    (∀ slab ∈ pool.slabs,
      (∀ slot < 64, slab.bitmap.getLsbD slot = true ↔
        slab.data + slot * pool.objectSize ∈ live) ∧
      slab.freeCount.toNat = 64 - slab.bitmap.cpop.toNat) ∧
    (∀ p ∈ live, ∃ slab ∈ pool.slabs, ∃ slot < 64,
      p = slab.data + slot * pool.objectSize) ∧
    (∀ self, pool.activeSlab = some self →
      ∃ slab ∈ pool.slabs, slab.self = self) ∧
    (∀ mem, (∀ m, mem = some m → pool.Fresh m) →
      (∀ slab pool', pool.allocSlab mem = some (slab, pool') →
        ~~~slab.bitmap ≠ 0) ∧
      ((pool.alloc mem).1 = none →
        vecSlabCreate pool.objectSize mem = none)) ∧
    (∀ (count : Word) mem p, (∀ m, mem = some m → pool.Fresh m) →
      (pool.allocContiguous count mem).1 = some p →
      ∃ slab ∈ (pool.allocContiguous count mem).2.slabs, ∃ slot,
        slot + count.val ≤ 64 ∧ p = slab.data + slot * pool.objectSize ∧
        ∀ i < count.val, p + i * pool.objectSize ∉ live) := by
  have h := hrun.invariant
  refine ⟨?_, ?_, h.active, ?_, ?_⟩
  · intro slab hslab
    constructor
    · intro slot hslot
      rw [← mem_slots]
      exact h.mem_slots_iff hslab hslot
    · have hcount := h.counts slab hslab
      rw [cpop_eq_card]
      omega
  · intro p hp
    obtain ⟨slab, hslab, slot, hslot, heq⟩ := (h.live_iff p).mp hp
    exact ⟨slab, hslab, slot, lt_of_mem_slots hslot, heq⟩
  · intro mem hfresh
    constructor
    · intro slab pool' halloc
      obtain ⟨hinv, -, hslab, -, hcount⟩ := h.allocSlab_spec hfresh halloc
      exact hinv.searched_not_full hslab hcount
    · intro hnull
      rcases h.alloc_spec hfresh with ⟨-, hnone⟩ | ⟨p, pool', halloc, -⟩
      · exact hnone
      · rw [halloc] at hnull
        cases hnull
  · intro count mem p hfresh hsome
    rcases h.allocContiguous_spec count.val hfresh with
      hnull | ⟨p', pool', halloc, -, hspec⟩
    · rw [hnull] at hsome
      cases hsome
    · rw [halloc] at hsome ⊢
      injection hsome with hsome
      subst hsome
      obtain ⟨slab, hslab, slot, hfit, heq⟩ := hspec.placed
      exact ⟨slab, hslab, slot, hfit, heq, hspec.free⟩

/-- The heap gives the slab at 64 and its data at 128. -/
def firstSlab : SlabMemory := ⟨64, 128⟩

theorem firstSlab_fresh {size : ℕ} (hsize : size ≤ 2 ^ 32) :
    ∀ m, some firstSlab = some m → (VecPool.mk size [] none).Fresh m := by
  intro m hm
  injection hm with hm
  subst hm
  constructor
  · intro slab hslab
    cases hslab
  · decide
  · show 0 < 128 ∧ 128 + 64 * size ≤ 2 ^ 64
    omega
  · intro slab hslab
    cases hslab

/-- Two objects are taken and one is freed, and then three are taken that lie
side by side. -/
theorem pool_bookkeeping_contiguous :
    ∃ (pool : VecPool) (live : Finset ℕ), PoolRun pool live ∧
      pool.slabs = [⟨64, 30, 60, 128⟩] ∧ 128 ∉ live ∧ 384 ∈ live ∧
      1152 ∈ live ∧ ∀ slab ∈ pool.slabs,
        slab.freeCount.toNat = 64 - slab.bitmap.cpop.toNat := by
  have hcreate : vecPoolCreate (256 : Word).val (0 : Word).val true
      (fun _ => none) = some ⟨256, [], none⟩ := by
    decide +kernel
  have hfresh : FreshSlabs (256 : Word).val (0 : Word).val fun _ => none := by
    intro s _ m hm
    cases hm
  have htwo := ((PoolRun.create hcreate hfresh (by decide)).alloc
    (some firstSlab) (firstSlab_fresh (by decide))).alloc none
      (fun m hm => nomatch hm)
  have hfreed := @PoolRun.free _ _ htwo 128 (by decide +kernel)
  have hrun := hfreed.allocContiguous 3 none (fun m hm => nomatch hm)
  refine ⟨_, _, hrun, ?_, ?_, ?_, ?_,
    fun slab hslab => ((pool_bookkeeping hrun).1 slab hslab).2⟩
  · decide +kernel
  · decide +kernel
  · decide +kernel
  · decide +kernel

/-! ## Allocations -/

/-- The pools that calls can lead to when each allocation is freed as a whole,
with the live allocations and how many slots each has. -/
inductive AllocationRun (objectSize : Word) :
    VecPool → List (ℕ × ℕ) → Prop
  | create {initialCount : Word} {poolOk : Bool}
      {mem : ℕ → Option SlabMemory} {pool : VecPool}
      (hcreate : vecPoolCreate objectSize initialCount poolOk mem = some pool)
      (hfresh : FreshSlabs objectSize initialCount mem) :
      AllocationRun objectSize pool []
  | alloc {pool : VecPool} {allocs : List (ℕ × ℕ)}
      (hrun : AllocationRun objectSize pool allocs)
      (mem : Option SlabMemory) (hfresh : ∀ m, mem = some m → pool.Fresh m) :
      AllocationRun objectSize (pool.alloc mem).2
        ((pool.alloc mem).1.toList.map (·, 1) ++ allocs)
  | free {pool : VecPool} {allocs : List (ℕ × ℕ)}
      (hrun : AllocationRun objectSize pool allocs) {p : ℕ}
      (hp : (p, 1) ∈ allocs) :
      AllocationRun objectSize (pool.free p) (allocs.erase (p, 1))
  | allocContiguous {pool : VecPool} {allocs : List (ℕ × ℕ)}
      (hrun : AllocationRun objectSize pool allocs) (count : Word)
      (mem : Option SlabMemory) (hfresh : ∀ m, mem = some m → pool.Fresh m) :
      AllocationRun objectSize (pool.allocContiguous count mem).2
        ((pool.allocContiguous count mem).1.toList.map (·, count.val) ++
          allocs)
  | freeContiguous {pool : VecPool} {allocs : List (ℕ × ℕ)}
      (hrun : AllocationRun objectSize pool allocs) {p : ℕ} {count : Word}
      (hp : (p, count.val) ∈ allocs) :
      AllocationRun objectSize (pool.freeContiguous p count)
        (allocs.erase (p, count.val))

/-- Ranges of `size` bytes a slot that do not overlap. -/
def RangesApart (size : ℕ) (a b : ℕ × ℕ) : Prop :=
  a.1 + a.2 * size ≤ b.1 ∨ b.1 + b.2 * size ≤ a.1

theorem RangesApart.symm {size : ℕ} {a b : ℕ × ℕ} (h : RangesApart size a b) :
    RangesApart size b a := Or.symm h

structure AllocationInvariant (pool : VecPool) (live : Finset ℕ)
    (allocs : List (ℕ × ℕ)) : Prop where
  invariant : PoolInvariant pool live
  placed : ∀ a ∈ allocs, ∃ slab ∈ pool.slabs, ∃ slot, slot + a.2 ≤ 64 ∧
    a.1 = slab.data + slot * pool.objectSize
  pos : ∀ a ∈ allocs, 0 < a.2
  live : ∀ a ∈ allocs, runAddresses pool.objectSize a.1 a.2 ⊆ live
  apart : allocs.Pairwise (RangesApart pool.objectSize)

namespace AllocationInvariant

variable {pool pool' : VecPool} {live : Finset ℕ} {allocs : List (ℕ × ℕ)}
  {p count : ℕ}

theorem rangesApart (h : AllocationInvariant pool live allocs)
    (hcount : 0 < count) (hspec : Allocated pool live count p pool')
    {a : ℕ × ℕ}
    (ha : a ∈ allocs) : RangesApart pool.objectSize (p, count) a := by
  obtain ⟨slab, hslab, slot, hfit, hp⟩ := hspec.placed
  obtain ⟨old, hold, start, hend, ha₁⟩ := h.placed a ha
  obtain ⟨kept, hkept, hdata⟩ := hspec.kept old hold
  have hinv := hspec.invariant
  have hsize := hspec.objectSize_eq
  have hfitSize := Nat.mul_le_mul_right pool.objectSize hfit
  have hendSize := Nat.mul_le_mul_right pool.objectSize hend
  rw [Nat.add_mul] at hfitSize hendSize
  unfold RangesApart
  show p + count * pool.objectSize ≤ a.1 ∨ a.1 + a.2 * pool.objectSize ≤ p
  by_cases hsame : slab = kept
  · subst hsame
    by_cases hover : slot + count ≤ start
    · have hle := Nat.mul_le_mul_right pool.objectSize hover
      rw [Nat.add_mul] at hle
      omega
    by_cases hunder : start + a.2 ≤ slot
    · have hle := Nat.mul_le_mul_right pool.objectSize hunder
      rw [Nat.add_mul] at hle
      omega
    · -- the runs would share the later one of the two first slots
      exfalso
      have hpos := h.pos a ha
      by_cases hlater : slot ≤ start
      · have hmem : a.1 + 0 * pool.objectSize ∈
            runAddresses pool.objectSize a.1 a.2 :=
          mem_runAddresses.mpr ⟨0, hpos, rfl⟩
        apply hspec.free (start - slot) (by omega)
        have heq : p + (start - slot) * pool.objectSize =
            a.1 + 0 * pool.objectSize := by
          rw [hp, ha₁, hdata, Nat.add_assoc, ← Nat.add_mul,
            Nat.add_sub_cancel' hlater, Nat.zero_mul, Nat.add_zero]
        rw [heq]
        exact h.live a ha hmem
      · apply hspec.free 0 hcount
        apply h.live a ha
        refine mem_runAddresses.mpr ⟨slot - start, by omega, ?_⟩
        rw [hp, ha₁, hdata, Nat.zero_mul, Nat.add_zero, Nat.add_assoc,
          ← Nat.add_mul, Nat.add_sub_cancel' (by omega)]
  · have hself : slab.self ≠ kept.self := fun hself =>
      hsame (hinv.eq_of_self hslab hkept hself)
    rcases hinv.apart slab hslab kept hkept hself with hle | hle
    · rw [hsize] at hle
      omega
    · rw [hsize] at hle
      omega

theorem allocated (h : AllocationInvariant pool live allocs)
    (hcount : 0 < count) (hspec : Allocated pool live count p pool') :
    AllocationInvariant pool'
      (live ∪ runAddresses pool.objectSize p count) ((p, count) :: allocs) := by
  have hsize := hspec.objectSize_eq
  constructor
  · exact hspec.invariant
  · intro a ha
    rw [hsize]
    rcases List.mem_cons.mp ha with rfl | ha
    · exact hspec.placed
    · obtain ⟨slab, hslab, slot, hfit, heq⟩ := h.placed a ha
      obtain ⟨kept, hkept, hdata⟩ := hspec.kept slab hslab
      refine ⟨kept, hkept, slot, hfit, ?_⟩
      rw [hdata]
      exact heq
  · intro a ha
    rcases List.mem_cons.mp ha with rfl | ha
    · exact hcount
    · exact h.pos a ha
  · intro a ha
    rw [hsize]
    rcases List.mem_cons.mp ha with rfl | ha
    · exact Finset.subset_union_right
    · exact (h.live a ha).trans Finset.subset_union_left
  · rw [hsize]
    apply List.pairwise_cons.mpr
    exact ⟨fun a ha => h.rangesApart hcount hspec ha, h.apart⟩

theorem released (h : AllocationInvariant pool live allocs)
    (hp : (p, count) ∈ allocs) (hspec : Released pool live count p pool') :
    AllocationInvariant pool'
      (live \ runAddresses pool.objectSize p count)
      (allocs.erase (p, count)) := by
  have hsize := hspec.objectSize_eq
  have hpos := h.invariant.sizePos
  have hperm := List.perm_cons_erase hp
  have hapart : ((p, count) :: allocs.erase (p, count)).Pairwise
      (RangesApart pool.objectSize) :=
    (hperm.pairwise_iff RangesApart.symm).mp h.apart
  rw [List.pairwise_cons] at hapart
  have hmem : ∀ a ∈ allocs.erase (p, count), a ∈ allocs := fun a ha =>
    List.mem_of_mem_erase ha
  constructor
  · exact hspec.invariant
  · intro a ha
    obtain ⟨slab, hslab, slot, hfit, heq⟩ := h.placed a (hmem a ha)
    obtain ⟨kept, hkept, hdata⟩ := hspec.kept slab hslab
    refine ⟨kept, hkept, slot, hfit, ?_⟩
    rw [hdata, hsize]
    exact heq
  · intro a ha
    exact h.pos a (hmem a ha)
  · intro a ha q hq
    rw [hsize] at hq
    rw [Finset.mem_sdiff]
    refine ⟨h.live a (hmem a ha) hq, ?_⟩
    intro hout
    obtain ⟨i, hi, hqi⟩ := mem_runAddresses.mp hq
    obtain ⟨j, hj, hqj⟩ := mem_runAddresses.mp hout
    have hiend := Nat.mul_le_mul_right pool.objectSize hi
    have hjend := Nat.mul_le_mul_right pool.objectSize hj
    rw [Nat.succ_mul] at hiend hjend
    rcases hapart.1 a ha with hle | hle
    · have hle : p + count * pool.objectSize ≤ a.1 := hle
      omega
    · have hle : a.1 + a.2 * pool.objectSize ≤ p := hle
      omega
  · rw [hsize]
    exact hapart.2

end AllocationInvariant

theorem AllocationRun.invariant {objectSize : Word} {pool : VecPool}
    {allocs : List (ℕ × ℕ)} (hrun : AllocationRun objectSize pool allocs)
    (hsize : 0 < realObjectSize objectSize) :
    pool.objectSize = realObjectSize objectSize ∧
      ∃ live, AllocationInvariant pool live allocs := by
  induction hrun with
  | create hcreate hfresh =>
      have hspec := vecPoolCreate_spec hcreate hfresh
      refine ⟨hspec.1, ∅, ?_⟩
      have hpool := hspec.2 (by rw [hspec.1]; exact hsize)
      exact ⟨hpool, by simp, by simp, by simp, List.Pairwise.nil⟩
  | alloc hrun mem hfresh ih =>
      obtain ⟨hreal, live, h⟩ := ih
      rcases h.invariant.alloc_spec hfresh with
        ⟨hnull, _⟩ | ⟨p, pool', halloc, hspec⟩
      · rw [hnull]
        exact ⟨hreal, live, h⟩
      · rw [halloc]
        exact ⟨hspec.objectSize_eq.trans hreal, _,
          h.allocated Nat.one_pos hspec⟩
  | free hrun hp ih =>
      obtain ⟨hreal, live, h⟩ := ih
      have hlive := h.live _ hp (mem_runAddresses.mpr ⟨0, Nat.one_pos, rfl⟩)
      rw [Nat.zero_mul, Nat.add_zero] at hlive
      have hspec := h.invariant.free_spec hlive
      exact ⟨hspec.objectSize_eq.trans hreal, _, h.released hp hspec⟩
  | allocContiguous hrun count mem hfresh ih =>
      obtain ⟨hreal, live, h⟩ := ih
      rcases h.invariant.allocContiguous_spec count.val hfresh with
        hnull | ⟨p, pool', halloc, hcount, hspec⟩
      · rw [hnull]
        exact ⟨hreal, live, h⟩
      · rw [halloc]
        exact ⟨hspec.objectSize_eq.trans hreal, _, h.allocated hcount hspec⟩
  | freeContiguous hrun hp ih =>
      obtain ⟨hreal, live, h⟩ := ih
      obtain ⟨slab, hslab, slot, hfit, heq⟩ := h.placed _ hp
      have hspec := h.invariant.freeContiguous_spec hslab (h.pos _ hp) hfit
        heq (h.live _ hp)
      exact ⟨hspec.objectSize_eq.trans hreal, _, h.released hp hspec⟩

/-! ## The size that was asked for -/

/-- The live allocations as ranges of bytes: disjoint, each inside the data of
one slab and aligned. -/
def ObjectsSeparate (objectSize : ℕ) (pool : VecPool)
    (allocs : List (ℕ × ℕ)) : Prop :=
  allocs.Pairwise (RangesApart objectSize) ∧
    ∀ a ∈ allocs, 16 ∣ a.1 ∧ ∃ slab ∈ pool.slabs, slab.data ≤ a.1 ∧
      a.1 + a.2 * objectSize ≤ slab.data + 64 * pool.objectSize

theorem realObjectSize_spec {objectSize : ℕ}
    (hsize : objectSize + 15 < wordSize) :
    0 < realObjectSize objectSize ∧ 16 ∣ realObjectSize objectSize ∧
      objectSize ≤ realObjectSize objectSize := by
  unfold realObjectSize
  dsimp only
  generalize hreal : (if objectSize < 16 then 16 else objectSize) = real
  have hword : (31 : ℕ) < wordSize := by decide
  have hbounds : 16 ≤ real ∧ objectSize ≤ real ∧ real + 15 < wordSize := by
    rw [← hreal]
    split <;> omega
  rw [wordAlignUp_of_lt (by omega)]
  have hround : real ≤ exactAlignUp real 16 := le_exactAlignUp (by decide)
  exact ⟨by omega, dvd_exactAlignUp _ _, by omega⟩

theorem AllocationInvariant.separate {objectSize : ℕ} {pool : VecPool}
    {live : Finset ℕ} {allocs : List (ℕ × ℕ)}
    (h : AllocationInvariant pool live allocs)
    (hle : objectSize ≤ pool.objectSize) (hdvd : 16 ∣ pool.objectSize) :
    ObjectsSeparate objectSize pool allocs := by
  constructor
  · apply h.apart.imp
    intro a b hapart
    have ha := Nat.mul_le_mul_left a.2 hle
    have hb := Nat.mul_le_mul_left b.2 hle
    rcases hapart with hapart | hapart
    · exact Or.inl (by omega)
    · exact Or.inr (by omega)
  · intro a ha
    obtain ⟨slab, hslab, slot, hfit, heq⟩ := h.placed a ha
    have haligned : 16 ∣ slab.data :=
      dvd_trans (by decide) (h.invariant.aligned slab hslab)
    have hsize := Nat.mul_le_mul_left a.2 hle
    have hend := Nat.mul_le_mul_right pool.objectSize hfit
    rw [Nat.add_mul] at hend
    refine ⟨?_, slab, hslab, by omega, by omega⟩
    rw [heq]
    exact Nat.dvd_add haligned (hdvd.mul_left slot)

/-- The pool of slots of no bytes, before and after its first allocation. -/
def wrappedPool : VecPool := ⟨0, [], none⟩

def wrappedPoolUsed : VecPool := ⟨0, [⟨64, 1, 63, 128⟩], some 64⟩

theorem AllocationRun.wrapped {objectSize : Word}
    (hsize : wordSize ≤ objectSize.val + 15) :
    AllocationRun objectSize wrappedPoolUsed [(128, 1)] := by
  have hword : (16 : ℕ) < wordSize := by decide
  have hreal : realObjectSize objectSize = 0 := by
    unfold realObjectSize
    dsimp only
    have hword31 : (31 : ℕ) < wordSize := by decide
    rw [if_neg (by omega)]
    exact wordAlignUp_of_wrap objectSize.isLt (by omega) (by omega)
  have hcreate : vecPoolCreate objectSize.val (0 : Word).val true
      (fun _ => none) = some wrappedPool := by
    unfold vecPoolCreate
    rw [if_neg (by omega), hreal]
    rfl
  have hfresh : FreshSlabs objectSize.val (0 : Word).val fun _ => none := by
    intro s _ m hm
    cases hm
  have hstep : wrappedPool.alloc (some firstSlab) =
      (some 128, wrappedPoolUsed) := by
    decide +kernel
  have hrun := (AllocationRun.create hcreate hfresh).alloc
    (some firstSlab) (firstSlab_fresh (by decide))
  rw [hstep] at hrun
  exact hrun

/-- The live allocations of every run are separate ranges of the size asked
for, exactly for the sizes whose rounding does not wrap around. -/
theorem pool_objects_separate_iff (objectSize : Word) :
    (∀ (pool : VecPool) (allocs : List (ℕ × ℕ)),
      AllocationRun objectSize pool allocs →
      ObjectsSeparate objectSize pool allocs) ↔
      objectSize.val + 15 < wordSize := by
  constructor
  · intro hseparate
    by_contra hwrap
    have hrun := AllocationRun.wrapped (not_lt.mp hwrap)
    have hall := (hseparate _ _ hrun).2 (128, 1) List.mem_cons_self
    obtain ⟨-, slab, hslab, -, hend⟩ := hall
    have hdata : slab = ⟨64, 1, 63, 128⟩ := List.mem_singleton.mp hslab
    subst hdata
    have hend : 128 + 1 * objectSize.val ≤ 128 + 64 * 0 := hend
    have hword : (16 : ℕ) < wordSize := by decide
    omega
  · intro hsize pool allocs hrun
    obtain ⟨hpos, hdvd, hle⟩ := realObjectSize_spec hsize
    obtain ⟨hreal, live, h⟩ := hrun.invariant hpos
    apply h.separate
    · rw [hreal]
      exact hle
    · rw [hreal]
      exact hdvd

/-- Two objects of the largest size get the same address. -/
theorem pool_objects_overlap :
    ∃ pool allocs, AllocationRun ⟨maxWord, by decide⟩ pool allocs ∧
      allocs = [(128, 1), (128, 1)] ∧ ¬ ObjectsSeparate maxWord pool allocs := by
  have hfirst : AllocationRun ⟨maxWord, by decide⟩ wrappedPoolUsed
      [(128, 1)] := AllocationRun.wrapped (by decide)
  have hsecond := hfirst.alloc none (by
    intro m hm
    cases hm)
  refine ⟨_, _, hsecond, by decide +kernel, ?_⟩
  rintro ⟨hapart, _⟩
  revert hapart
  have hallocs : ((wrappedPoolUsed.alloc none).1.toList.map (·, 1) ++
      [(128, 1)]) = [(128, 1), (128, 1)] := by
    decide +kernel
  rw [hallocs, List.pairwise_cons]
  rintro ⟨hfirst, _⟩
  have hover : RangesApart maxWord (128, 1) (128, 1) :=
    hfirst (128, 1) (by simp)
  have hword : (0 : ℕ) < maxWord := by decide
  rcases hover with hle | hle
  · have hle : 128 + 1 * maxWord ≤ 128 := hle
    omega
  · have hle : 128 + 1 * maxWord ≤ 128 := hle
    omega

end Palloc
