import Palloc.VectorPool

/-!
# Slots of a vector pool

A slot is known by its address.  The invariant says of a set of addresses that
it is what the bitmaps mark, that the free counters agree with the bitmaps and
that the data blocks of the slabs do not overlap.  An address then belongs to
one slot of one slab, and each operation adds or removes the addresses of the
slots that it is about.
-/

namespace Palloc

open MachineWord BitSlots

/-- The addresses of `count` slots from `p` on. -/
def runAddresses (objectSize p count : ℕ) : Finset ℕ :=
  (Finset.range count).image fun i => p + i * objectSize

structure PoolInvariant (pool : VecPool) (live : Finset ℕ) : Prop where
  sizePos : 0 < pool.objectSize
  selfs : (pool.slabs.map (·.self)).Nodup
  active : ∀ self, pool.activeSlab = some self →
    ∃ slab ∈ pool.slabs, slab.self = self
  counts : ∀ slab ∈ pool.slabs,
    slab.freeCount.toNat + (slots slab.bitmap).card = 64
  aligned : ∀ slab ∈ pool.slabs, 64 ∣ slab.data
  fits : ∀ slab ∈ pool.slabs,
    0 < slab.data ∧ slab.data + 64 * pool.objectSize ≤ wordSize
  apart : ∀ slab ∈ pool.slabs, ∀ other ∈ pool.slabs,
    slab.self ≠ other.self →
      slab.data + 64 * pool.objectSize ≤ other.data ∨
        other.data + 64 * pool.objectSize ≤ slab.data
  live_iff : ∀ p, p ∈ live ↔ ∃ slab ∈ pool.slabs,
    ∃ i ∈ slots slab.bitmap, p = slab.data + i * pool.objectSize

/-- What the code relies on when the heap gives it memory for a slab: it is
not in use, aligned as asked for, and inside the address space. -/
structure VecPool.Fresh (pool : VecPool) (mem : SlabMemory) : Prop where
  self_ne : ∀ slab ∈ pool.slabs, slab.self ≠ mem.self
  aligned : 64 ∣ mem.data
  fits : 0 < mem.data ∧ mem.data + 64 * pool.objectSize ≤ wordSize
  apart : ∀ slab ∈ pool.slabs,
    slab.data + 64 * pool.objectSize ≤ mem.data ∨
      mem.data + 64 * pool.objectSize ≤ slab.data

theorem mem_runAddresses {objectSize p count q : ℕ} :
    q ∈ runAddresses objectSize p count ↔
      ∃ i < count, q = p + i * objectSize := by
  unfold runAddresses
  rw [Finset.mem_image]
  constructor
  · rintro ⟨i, hi, heq⟩
    exact ⟨i, Finset.mem_range.mp hi, heq.symm⟩
  · rintro ⟨i, hi, heq⟩
    exact ⟨i, Finset.mem_range.mpr hi, heq.symm⟩

namespace PoolInvariant

variable {pool : VecPool} {live : Finset ℕ} {slab other : VecSlab}

theorem eq_of_self (h : PoolInvariant pool live) (hslab : slab ∈ pool.slabs)
    (hother : other ∈ pool.slabs) (hself : slab.self = other.self) :
    slab = other :=
  List.inj_on_of_nodup_map h.selfs hslab hother hself

theorem slot_unique (h : PoolInvariant pool live) (hslab : slab ∈ pool.slabs)
    (hother : other ∈ pool.slabs) {i j : ℕ} (hi : i < 64) (hj : j < 64)
    (heq : slab.data + i * pool.objectSize =
      other.data + j * pool.objectSize) : slab = other ∧ i = j := by
  have hpos := h.sizePos
  have hiend : (i + 1) * pool.objectSize ≤ 64 * pool.objectSize :=
    Nat.mul_le_mul_right _ hi
  have hjend : (j + 1) * pool.objectSize ≤ 64 * pool.objectSize :=
    Nat.mul_le_mul_right _ hj
  rw [Nat.add_mul, Nat.one_mul] at hiend hjend
  have hsame : slab = other := by
    by_contra hne
    have hself : slab.self ≠ other.self := fun hself =>
      hne (h.eq_of_self hslab hother hself)
    rcases h.apart slab hslab other hother hself with hle | hle
    · omega
    · omega
  subst hsame
  exact ⟨rfl, Nat.eq_of_mul_eq_mul_right hpos (Nat.add_left_cancel heq)⟩

theorem mem_slots_iff (h : PoolInvariant pool live) (hslab : slab ∈ pool.slabs)
    {i : ℕ} (hi : i < 64) :
    i ∈ slots slab.bitmap ↔ slab.data + i * pool.objectSize ∈ live := by
  rw [h.live_iff]
  constructor
  · intro hbit
    exact ⟨slab, hslab, i, hbit, rfl⟩
  · rintro ⟨other, hother, j, hj, heq⟩
    rcases h.slot_unique hslab hother hi (lt_of_mem_slots hj) heq with
      ⟨rfl, rfl⟩
    exact hj

theorem withActive (h : PoolInvariant pool live) {self : ℕ}
    (hactive : ∃ slab ∈ pool.slabs, slab.self = self) :
    PoolInvariant { pool with activeSlab := some self } live := by
  constructor
  · exact h.sizePos
  · exact h.selfs
  · intro other hother
    injection hother with hother
    rw [← hother]
    exact hactive
  · exact h.counts
  · exact h.aligned
  · exact h.fits
  · exact h.apart
  · exact h.live_iff

theorem mem_setSlab (h : PoolInvariant pool live) (hslab : slab ∈ pool.slabs)
    {slab' : VecSlab} (hself : slab'.self = slab.self) (s : VecSlab) :
    s ∈ (pool.setSlab slab').slabs ↔
      s = slab' ∨ (s ∈ pool.slabs ∧ s ≠ slab) := by
  unfold VecPool.setSlab
  rw [List.mem_map]
  constructor
  · rintro ⟨old, hold, rfl⟩
    by_cases heq : old.self = slab'.self
    · rw [if_pos heq]
      exact Or.inl rfl
    · rw [if_neg heq]
      right
      refine ⟨hold, ?_⟩
      rintro rfl
      exact heq hself.symm
  · rintro (rfl | ⟨hmem, hne⟩)
    · exact ⟨slab, hslab, if_pos hself.symm⟩
    · refine ⟨s, hmem, if_neg ?_⟩
      intro heq
      exact hne (h.eq_of_self hmem hslab (heq.trans hself))

/-- A write to one slab that keeps its counter right. -/
theorem setSlab (h : PoolInvariant pool live) (hslab : slab ∈ pool.slabs)
    {slab' : VecSlab} {live' : Finset ℕ} (hself : slab'.self = slab.self)
    (hdata : slab'.data = slab.data)
    (hcount : slab'.freeCount.toNat + (slots slab'.bitmap).card = 64)
    (hlive : ∀ p, p ∈ live' ↔
      (p ∈ live ∧
        ∀ i ∈ slots slab.bitmap, p ≠ slab.data + i * pool.objectSize) ∨
      ∃ i ∈ slots slab'.bitmap, p = slab.data + i * pool.objectSize) :
    PoolInvariant (pool.setSlab slab') live' := by
  have hmem := h.mem_setSlab hslab hself
  have hold : ∀ s ∈ (pool.setSlab slab').slabs, ∃ old ∈ pool.slabs,
      old.self = s.self ∧ old.data = s.data := by
    intro s hs
    rcases (hmem s).mp hs with rfl | ⟨hs, _⟩
    · exact ⟨slab, hslab, hself.symm, hdata.symm⟩
    · exact ⟨s, hs, rfl, rfl⟩
  have hselfs : (pool.setSlab slab').slabs.map (·.self) =
      pool.slabs.map (·.self) := by
    unfold VecPool.setSlab
    rw [List.map_map]
    apply List.map_congr_left
    intro s _
    show (if s.self = slab'.self then slab' else s).self = s.self
    split
    · rename_i heq
      exact heq.symm
    · rfl
  constructor
  · exact h.sizePos
  · rw [hselfs]
    exact h.selfs
  · intro self hactive
    obtain ⟨s, hs, rfl⟩ := h.active self hactive
    have hin : s.self ∈ (pool.setSlab slab').slabs.map (·.self) := by
      rw [hselfs]
      exact List.mem_map_of_mem hs
    exact List.mem_map.mp hin
  · intro s hs
    rcases (hmem s).mp hs with rfl | ⟨hs, _⟩
    · exact hcount
    · exact h.counts s hs
  · intro s hs
    obtain ⟨old, hmem, -, hdata⟩ := hold s hs
    rw [← hdata]
    exact h.aligned old hmem
  · intro s hs
    obtain ⟨old, hmem, -, hdata⟩ := hold s hs
    rw [← hdata]
    exact h.fits old hmem
  · intro s hs t ht hne
    obtain ⟨s₀, hs₀, hself₀, hdata₀⟩ := hold s hs
    obtain ⟨t₀, ht₀, hself₁, hdata₁⟩ := hold t ht
    rw [← hdata₀, ← hdata₁]
    rw [← hself₀, ← hself₁] at hne
    exact h.apart s₀ hs₀ t₀ ht₀ hne
  · intro p
    rw [hlive p]
    constructor
    · rintro (⟨hp, hne⟩ | ⟨i, hi, heq⟩)
      · obtain ⟨s, hs, i, hi, heq⟩ := (h.live_iff p).mp hp
        refine ⟨s, (hmem s).mpr (Or.inr ⟨hs, ?_⟩), i, hi, heq⟩
        rintro rfl
        exact hne i hi heq
      · refine ⟨slab', (hmem slab').mpr (Or.inl rfl), i, hi, ?_⟩
        rw [hdata]
        exact heq
    · rintro ⟨s, hs, i, hi, heq⟩
      rcases (hmem s).mp hs with rfl | ⟨hs, hne⟩
      · rw [hdata] at heq
        exact Or.inr ⟨i, hi, heq⟩
      · refine Or.inl ⟨(h.live_iff p).mpr ⟨s, hs, i, hi, heq⟩, ?_⟩
        intro j hj heq'
        apply hne
        have hsame : s.data + i * pool.objectSize =
            slab.data + j * pool.objectSize := heq.symm.trans heq'
        exact (h.slot_unique hs hslab (lt_of_mem_slots hi)
          (lt_of_mem_slots hj) hsame).1

theorem mem_run_iff (h : PoolInvariant pool live) (hslab : slab ∈ pool.slabs)
    {count slot i : ℕ} (hfit : slot + count ≤ 64) (hi : i < 64) :
    slab.data + i * pool.objectSize ∈ runAddresses pool.objectSize
        (slab.data + slot * pool.objectSize) count ↔
      slot ≤ i ∧ i < slot + count := by
  rw [mem_runAddresses]
  constructor
  · rintro ⟨j, hj, heq⟩
    rw [Nat.add_assoc, ← Nat.add_mul] at heq
    have hij := (h.slot_unique hslab hslab hi (by omega) heq).2
    omega
  · rintro ⟨hlo, hhi⟩
    refine ⟨i - slot, by omega, ?_⟩
    rw [Nat.add_assoc, ← Nat.add_mul, Nat.add_sub_cancel' hlo]

/-- Marking a run of free slots. -/
theorem takeRun (h : PoolInvariant pool live) (hslab : slab ∈ pool.slabs)
    {count slot : ℕ} (hfit : slot + count ≤ 64)
    (hfree : ∀ i, slot ≤ i → i < slot + count → i ∉ slots slab.bitmap) :
    PoolInvariant (pool.takeRun slab count slot)
      (live ∪ runAddresses pool.objectSize
        (slab.data + slot * pool.objectSize) count) := by
  have hcard := card_slots_or hfit hfree
  have hcount := h.counts slab hslab
  have hsmall : (BitVec.ofNat 32 count).toNat = count := by
    rw [BitVec.toNat_ofNat]
    apply Nat.mod_eq_of_lt
    omega
  have hle := card_slots_le (slab.bitmap ||| runMask count slot)
  have hroom : BitVec.ofNat 32 count ≤ slab.freeCount := by
    rw [BitVec.le_def, hsmall]
    omega
  unfold VecPool.takeRun
  apply h.setSlab hslab
  · rfl
  · rfl
  · rw [BitVec.toNat_sub_of_le hroom, hsmall, hcard]
    omega
  · intro p
    rw [Finset.mem_union, slots_or_runMask hfit]
    constructor
    · rintro (hp | hp)
      · by_cases hhere : ∃ i ∈ slots slab.bitmap,
            p = slab.data + i * pool.objectSize
        · obtain ⟨i, hi, heq⟩ := hhere
          exact Or.inr ⟨i, Finset.mem_union_left _ hi, heq⟩
        · exact Or.inl ⟨hp, fun i hi heq => hhere ⟨i, hi, heq⟩⟩
      · obtain ⟨i, hi, heq⟩ := mem_runAddresses.mp hp
        refine Or.inr ⟨slot + i, Finset.mem_union_right _ ?_, ?_⟩
        · rw [Finset.mem_Ico]
          omega
        · rw [heq, Nat.add_assoc, ← Nat.add_mul]
    · rintro (⟨hp, _⟩ | ⟨i, hi, heq⟩)
      · exact Or.inl hp
      · rcases Finset.mem_union.mp hi with hi | hi
        · exact Or.inl ((h.live_iff p).mpr ⟨slab, hslab, i, hi, heq⟩)
        · rw [Finset.mem_Ico] at hi
          right
          rw [heq]
          exact (h.mem_run_iff hslab hfit (by omega)).mpr hi

theorem releaseRun (h : PoolInvariant pool live) (hslab : slab ∈ pool.slabs)
    {count slot : ℕ} (hfit : slot + count ≤ 64)
    (hlive : ∀ i, slot ≤ i → i < slot + count → i ∈ slots slab.bitmap) :
    PoolInvariant (pool.setSlab { slab with
        bitmap := slab.bitmap &&& ~~~runMask count slot
        freeCount := slab.freeCount + BitVec.ofNat 32 count })
      (live \ runAddresses pool.objectSize
        (slab.data + slot * pool.objectSize) count) := by
  have hcard := card_slots_and_not hfit hlive
  have hcount := h.counts slab hslab
  have hsmall : (BitVec.ofNat 32 count).toNat = count := by
    rw [BitVec.toNat_ofNat]
    apply Nat.mod_eq_of_lt
    omega
  have hle := card_slots_le slab.bitmap
  have hsum : (slab.freeCount + BitVec.ofNat 32 count).toNat =
      slab.freeCount.toNat + count := by
    rw [BitVec.toNat_add_of_lt (by rw [hsmall]; omega), hsmall]
  apply h.setSlab hslab
  · rfl
  · rfl
  · show (slab.freeCount + BitVec.ofNat 32 count).toNat +
      (slots (slab.bitmap &&& ~~~runMask count slot)).card = 64
    omega
  · intro p
    rw [Finset.mem_sdiff, slots_and_not_runMask hfit]
    constructor
    · rintro ⟨hp, hout⟩
      by_cases hhere : ∃ i ∈ slots slab.bitmap,
          p = slab.data + i * pool.objectSize
      · obtain ⟨i, hi, heq⟩ := hhere
        refine Or.inr ⟨i, Finset.mem_sdiff.mpr ⟨hi, ?_⟩, heq⟩
        rw [Finset.mem_Ico]
        intro hin
        apply hout
        rw [heq]
        exact (h.mem_run_iff hslab hfit (lt_of_mem_slots hi)).mpr hin
      · exact Or.inl ⟨hp, fun i hi heq => hhere ⟨i, hi, heq⟩⟩
    · rintro (⟨hp, hne⟩ | ⟨i, hi, heq⟩)
      · refine ⟨hp, ?_⟩
        intro hin
        obtain ⟨i, hi, heq⟩ := mem_runAddresses.mp hin
        rw [Nat.add_assoc, ← Nat.add_mul] at heq
        exact hne (slot + i) (hlive _ (by omega) (by omega)) heq
      · rw [Finset.mem_sdiff, Finset.mem_Ico] at hi
        refine ⟨(h.live_iff p).mpr ⟨slab, hslab, i, hi.1, heq⟩, ?_⟩
        intro hin
        rw [heq] at hin
        exact hi.2 ((h.mem_run_iff hslab hfit (lt_of_mem_slots hi.1)).mp hin)

end PoolInvariant

end Palloc
