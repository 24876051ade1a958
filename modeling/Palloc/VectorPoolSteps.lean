import Palloc.VectorPoolInvariant

/-!
# Operations of a vector pool

An allocation takes slots that were free and a release gives back slots that
were live; both say so in terms of addresses.  The slabs keep their data
blocks.
-/

namespace Palloc

open MachineWord BitSlots

variable {pool pool' : VecPool} {live : Finset ℕ} {slab : VecSlab}
  {mem : Option SlabMemory} {count p : ℕ}

/-! ## One operation -/

structure Allocated (pool : VecPool) (live : Finset ℕ) (count p : ℕ)
    (pool' : VecPool) : Prop where
  objectSize_eq : pool'.objectSize = pool.objectSize
  invariant : PoolInvariant pool'
    (live ∪ runAddresses pool.objectSize p count)
  kept : ∀ slab ∈ pool.slabs, ∃ slab' ∈ pool'.slabs, slab'.data = slab.data
  placed : ∃ slab ∈ pool'.slabs, ∃ slot, slot + count ≤ 64 ∧
    p = slab.data + slot * pool.objectSize
  free : ∀ i < count, p + i * pool.objectSize ∉ live

theorem setSlab_kept (pool : VecPool) {slab' : VecSlab}
    (hslab : slab ∈ pool.slabs) (hdata : ∀ s ∈ pool.slabs,
      s.self = slab'.self → slab'.data = s.data) :
    ∃ s ∈ (pool.setSlab slab').slabs, s.data = slab.data := by
  refine ⟨_, List.mem_map_of_mem hslab, ?_⟩
  split
  · exact hdata slab hslab ‹_›
  · rfl

theorem PoolInvariant.takeRun_allocated (h : PoolInvariant pool live)
    (hslab : slab ∈ pool.slabs) {slot : ℕ} (hfit : slot + count ≤ 64)
    (hfree : ∀ i, slot ≤ i → i < slot + count → i ∉ slots slab.bitmap) :
    Allocated pool live count (slab.data + slot * pool.objectSize)
      (pool.takeRun slab count slot) := by
  have hdata : ∀ s ∈ pool.slabs, s.self = slab.self → slab.data = s.data := by
    intro s hs hself
    rw [h.eq_of_self hs hslab hself]
  constructor
  · rfl
  · exact h.takeRun hslab hfit hfree
  · intro s hs
    exact setSlab_kept pool hs hdata
  · obtain ⟨s, hs, heq⟩ : ∃ s ∈ (pool.takeRun slab count slot).slabs,
        s.data = slab.data := setSlab_kept pool hslab hdata
    refine ⟨s, hs, slot, hfit, ?_⟩
    rw [heq]
  · intro i hi hmem
    rw [Nat.add_assoc, ← Nat.add_mul] at hmem
    exact hfree (slot + i) (by omega) (by omega)
      ((h.mem_slots_iff hslab (by omega)).mpr hmem)

theorem vecSlabCreate_spec {objectSize : ℕ}
    (hcreate : vecSlabCreate objectSize mem = some slab) :
    ∃ m, mem = some m ∧ slab = ⟨m.self, 0, 64, m.data⟩ := by
  unfold vecSlabCreate at hcreate
  split at hcreate
  · cases hcreate
  · rcases Option.map_eq_some_iff.mp hcreate with ⟨m, hmem, heq⟩
    exact ⟨m, hmem, heq.symm⟩

theorem PoolInvariant.prepend (h : PoolInvariant pool live)
    (hfresh : ∀ m, mem = some m → pool.Fresh m)
    (hcreate : vecSlabCreate pool.objectSize mem = some slab) :
    PoolInvariant (pool.prepend slab) live ∧ slots slab.bitmap = ∅ ∧
      slab.freeCount = 64 := by
  obtain ⟨m, hmem, rfl⟩ := vecSlabCreate_spec hcreate
  have hfresh := hfresh m hmem
  refine ⟨?_, slots_zero, rfl⟩
  constructor
  · exact h.sizePos
  · show (m.self :: pool.slabs.map (·.self)).Nodup
    rw [List.nodup_cons]
    refine ⟨?_, h.selfs⟩
    intro hin
    rcases List.mem_map.mp hin with ⟨s, hs, heq⟩
    exact hfresh.self_ne s hs heq
  · intro self hactive
    obtain ⟨s, hs, heq⟩ := h.active self hactive
    exact ⟨s, List.mem_cons_of_mem _ hs, heq⟩
  · intro s hs
    rcases List.mem_cons.mp hs with rfl | hs
    · rw [slots_zero]
      rfl
    · exact h.counts s hs
  · intro s hs
    rcases List.mem_cons.mp hs with rfl | hs
    · exact hfresh.aligned
    · exact h.aligned s hs
  · intro s hs
    rcases List.mem_cons.mp hs with rfl | hs
    · exact hfresh.fits
    · exact h.fits s hs
  · intro s hs t ht hne
    rcases List.mem_cons.mp hs with rfl | hs
    · rcases List.mem_cons.mp ht with rfl | ht
      · exact absurd rfl hne
      · exact (hfresh.apart t ht).symm
    · rcases List.mem_cons.mp ht with rfl | ht
      · exact hfresh.apart s hs
      · exact h.apart s hs t ht hne
  · intro q
    rw [h.live_iff]
    constructor
    · rintro ⟨s, hs, i, hi, heq⟩
      exact ⟨s, List.mem_cons_of_mem _ hs, i, hi, heq⟩
    · rintro ⟨s, hs, i, hi, heq⟩
      rcases List.mem_cons.mp hs with rfl | hs
      · rw [slots_zero] at hi
        simp at hi
      · exact ⟨s, hs, i, hi, heq⟩

/-- The slab that an allocation searches has a free slot. -/
theorem PoolInvariant.allocSlab_spec (h : PoolInvariant pool live)
    (hfresh : ∀ m, mem = some m → pool.Fresh m)
    (halloc : pool.allocSlab mem = some (slab, pool')) :
    PoolInvariant pool' live ∧ pool'.objectSize = pool.objectSize ∧
      slab ∈ pool'.slabs ∧ (∀ s ∈ pool.slabs, s ∈ pool'.slabs) ∧
      slab.freeCount ≠ 0 := by
  unfold VecPool.allocSlab at halloc
  split at halloc
  · rename_i active hactive
    injection halloc with halloc
    injection halloc with hslab hpool
    subst hslab hpool
    rw [Option.filter_eq_some_iff] at hactive
    obtain ⟨hsome, hcount⟩ := hactive
    obtain ⟨self, -, hat⟩ := Option.bind_eq_some_iff.mp hsome
    exact ⟨h, rfl, List.mem_of_find?_eq_some hat, fun s hs => hs,
      of_decide_eq_true hcount⟩
  split at halloc
  · rename_i found hfound
    injection halloc with halloc
    injection halloc with hslab hpool
    subst hslab hpool
    have hmem := List.mem_of_find?_eq_some hfound
    have hcount := List.find?_some hfound
    exact ⟨h.withActive ⟨_, hmem, rfl⟩, rfl, hmem, fun s hs => hs,
      of_decide_eq_true hcount⟩
  · rcases Option.map_eq_some_iff.mp halloc with ⟨new, hcreate, heq⟩
    injection heq with hslab hpool
    subst hslab hpool
    obtain ⟨hinv, -, hcount⟩ := h.prepend hfresh hcreate
    have hmem : new ∈ (pool.prepend new).slabs := List.mem_cons_self
    refine ⟨hinv.withActive ⟨_, hmem, rfl⟩, rfl, hmem,
      fun s hs => List.mem_cons_of_mem _ hs, ?_⟩
    rw [hcount]
    decide

theorem allocSlab_none (halloc : pool.allocSlab mem = none) :
    vecSlabCreate pool.objectSize mem = none := by
  unfold VecPool.allocSlab at halloc
  split at halloc
  · cases halloc
  split at halloc
  · cases halloc
  · exact Option.map_eq_none_iff.mp halloc

theorem PoolInvariant.searched_not_full (h : PoolInvariant pool live)
    (hslab : slab ∈ pool.slabs) (hcount : slab.freeCount ≠ 0) :
    ~~~slab.bitmap ≠ 0#64 := by
  apply not_ne_zero
  have hsum := h.counts slab hslab
  have hpos : slab.freeCount.toNat ≠ 0 := by
    intro hzero
    exact hcount (BitVec.eq_of_toNat_eq hzero)
  omega

/-- `pa_vec_pool_alloc` takes a free slot, or the heap has no memory. -/
theorem PoolInvariant.alloc_spec (h : PoolInvariant pool live)
    (hfresh : ∀ m, mem = some m → pool.Fresh m) :
    (pool.alloc mem = (none, pool) ∧
      vecSlabCreate pool.objectSize mem = none) ∨
    ∃ p pool', pool.alloc mem = (some p, pool') ∧
      Allocated pool live 1 p pool' := by
  unfold VecPool.alloc
  cases halloc : pool.allocSlab mem with
  | none => exact Or.inl ⟨rfl, allocSlab_none halloc⟩
  | some result =>
      obtain ⟨slab, found⟩ := result
      obtain ⟨hinv, hsize, hslab, hkept, hcount⟩ :=
        h.allocSlab_spec hfresh halloc
      have hfull := hinv.searched_not_full hslab hcount
      have hslot := ctz_mem_slots hfull
      have hlt := lt_of_mem_slots hslot
      rw [mem_slots_not hlt] at hslot
      refine Or.inr ⟨_, _, rfl, ?_⟩
      generalize (~~~slab.bitmap).ctz.toNat = slot at hslot hlt ⊢
      have hfit : slot + 1 ≤ 64 := hlt
      have htake : Allocated found live 1
          (slab.data + slot * found.objectSize) (found.takeRun slab 1 slot) :=
        hinv.takeRun_allocated hslab hfit (by
          intro i hlo hhi
          have hi : i = slot := by omega
          rw [hi]
          exact hslot)
      have hfree := htake.free
      have hplaced := htake.placed
      have hinvariant := htake.invariant
      rw [hsize] at hfree hplaced hinvariant
      refine ⟨hsize, ?_, fun s hs => htake.kept s (hkept s hs), ?_, ?_⟩
      · rw [hsize]
        exact hinvariant
      · rw [hsize]
        exact hplaced
      · rw [hsize]
        exact hfree

theorem findRun_spec {slot : ℕ}
    (hfind : pool.findRun count = some (slab, slot)) :
    slab ∈ pool.slabs ∧ slot + count ≤ 64 ∧
      ∀ i, slot ≤ i → i < slot + count → i ∉ slots slab.bitmap := by
  unfold VecPool.findRun at hfind
  obtain ⟨s, hs, hfound⟩ := List.exists_of_findSome?_eq_some hfind
  split at hfound
  · rcases Option.map_eq_some_iff.mp hfound with ⟨start, hstart, heq⟩
    injection heq with hslab hslot
    subst hslab hslot
    obtain ⟨-, hfit, hbits⟩ := slabFindContiguous_spec hstart
    refine ⟨hs, hfit, ?_⟩
    intro i hlo hhi
    exact (mem_slots_not (by omega)).mp (hbits i hlo hhi)
  · cases hfound

/-- `pa_vec_pool_alloc_contiguous` takes a run of free slots of one slab. -/
theorem PoolInvariant.allocContiguous_spec (h : PoolInvariant pool live)
    (count : ℕ) (hfresh : ∀ m, mem = some m → pool.Fresh m) :
    pool.allocContiguous count mem = (none, pool) ∨
    ∃ p pool', pool.allocContiguous count mem = (some p, pool') ∧
      0 < count ∧ Allocated pool live count p pool' := by
  unfold VecPool.allocContiguous
  split
  · exact Or.inl rfl
  rename_i hcount
  split
  · rename_i slab slot hfind
    obtain ⟨hslab, hfit, hfree⟩ := findRun_spec hfind
    exact Or.inr ⟨_, _, rfl, by omega,
      h.takeRun_allocated hslab hfit hfree⟩
  split
  · exact Or.inl rfl
  · rename_i slab hcreate
    obtain ⟨hinv, hslots, -⟩ := h.prepend hfresh hcreate
    have hmem : slab ∈ (pool.prepend slab).slabs := List.mem_cons_self
    have hfit : 0 + count ≤ 64 := by omega
    have htake : Allocated (pool.prepend slab) live count
        (slab.data + 0 * pool.objectSize)
        ((pool.prepend slab).takeRun slab count 0) :=
      hinv.takeRun_allocated hmem hfit (by
        intro i _ _
        rw [hslots]
        simp)
    rw [Nat.zero_mul, Nat.add_zero] at htake
    refine Or.inr ⟨_, _, rfl, by omega, rfl, htake.invariant, ?_,
      htake.placed, htake.free⟩
    intro s hs
    exact htake.kept s (List.mem_cons_of_mem _ hs)

theorem PoolInvariant.ownerSlab_eq (h : PoolInvariant pool live)
    (hslab : slab ∈ pool.slabs) {slot : ℕ} (hslot : slot < 64) :
    pool.ownerSlab (slab.data + slot * pool.objectSize) = some slab := by
  have hpos := h.sizePos
  have hfits := h.fits slab hslab
  have hend : (slot + 1) * pool.objectSize ≤ 64 * pool.objectSize :=
    Nat.mul_le_mul_right _ hslot
  rw [Nat.add_mul, Nat.one_mul] at hend
  unfold VecPool.ownerSlab
  dsimp only
  rw [Nat.mod_eq_of_lt (by omega)]
  cases hfind : pool.slabs.find? fun s =>
      s.data ≤ slab.data + slot * pool.objectSize ∧
        slab.data + slot * pool.objectSize <
          s.data + 64 * pool.objectSize with
  | none =>
      have hnot := List.find?_eq_none.mp hfind slab hslab
      simp only [decide_eq_true_eq] at hnot
      omega
  | some other =>
      have hother := List.mem_of_find?_eq_some hfind
      have hin := List.find?_some hfind
      simp only [decide_eq_true_eq] at hin
      congr 1
      by_contra hne
      have hself : other.self ≠ slab.self := fun hself =>
        hne (h.eq_of_self hother hslab hself)
      rcases h.apart other hother slab hslab hself with hle | hle
      · omega
      · omega

structure Released (pool : VecPool) (live : Finset ℕ) (count p : ℕ)
    (pool' : VecPool) : Prop where
  objectSize_eq : pool'.objectSize = pool.objectSize
  invariant : PoolInvariant pool'
    (live \ runAddresses pool.objectSize p count)
  kept : ∀ slab ∈ pool.slabs, ∃ slab' ∈ pool'.slabs, slab'.data = slab.data

theorem PoolInvariant.releaseRun_released (h : PoolInvariant pool live)
    (hslab : slab ∈ pool.slabs) {slot : ℕ} (hfit : slot + count ≤ 64)
    (hlive : ∀ i, slot ≤ i → i < slot + count → i ∈ slots slab.bitmap) :
    Released pool live count (slab.data + slot * pool.objectSize)
      (pool.setSlab { slab with
        bitmap := slab.bitmap &&& ~~~runMask count slot
        freeCount := slab.freeCount + BitVec.ofNat 32 count }) := by
  constructor
  · rfl
  · exact h.releaseRun hslab hfit hlive
  · intro s hs
    apply setSlab_kept pool hs
    intro s' hs' hself
    rw [h.eq_of_self hs' hslab hself]

theorem PoolInvariant.runSlots_live (h : PoolInvariant pool live)
    (hslab : slab ∈ pool.slabs) {slot : ℕ} (hfit : slot + count ≤ 64)
    (hlive : runAddresses pool.objectSize
      (slab.data + slot * pool.objectSize) count ⊆ live) :
    ∀ i, slot ≤ i → i < slot + count → i ∈ slots slab.bitmap := by
  intro i hlo hhi
  have hi : i < 64 := by omega
  rw [h.mem_slots_iff hslab hi]
  exact hlive ((h.mem_run_iff hslab hfit hi).mpr ⟨hlo, hhi⟩)

theorem PoolInvariant.free_spec (h : PoolInvariant pool live)
    (hp : p ∈ live) : Released pool live 1 p (pool.free p) := by
  obtain ⟨slab, hslab, slot, hslot, rfl⟩ := (h.live_iff p).mp hp
  have hlt := lt_of_mem_slots hslot
  have hfit : slot + 1 ≤ 64 := hlt
  have hreleased : Released pool live 1 (slab.data + slot * pool.objectSize)
      (pool.setSlab { slab with
        bitmap := slab.bitmap &&& ~~~runMask 1 slot
        freeCount := slab.freeCount + BitVec.ofNat 32 1 }) :=
    h.releaseRun_released hslab hfit (by
      intro i hlo hhi
      have hi : i = slot := by omega
      rw [hi]
      exact hslot)
  unfold VecPool.free
  rw [h.ownerSlab_eq hslab hlt]
  dsimp only
  rw [Nat.add_sub_cancel_left, Nat.mul_div_cancel _ h.sizePos, if_pos hlt]
  refine ⟨rfl, ?_, hreleased.kept⟩
  apply hreleased.invariant.withActive
  refine ⟨_, (h.mem_setSlab hslab ?_ _).mpr (Or.inl rfl), rfl⟩
  rfl

theorem PoolInvariant.freeContiguous_spec (h : PoolInvariant pool live)
    (hslab : slab ∈ pool.slabs) {slot : ℕ} (hcount : 0 < count)
    (hfit : slot + count ≤ 64)
    (hp : p = slab.data + slot * pool.objectSize)
    (hlive : runAddresses pool.objectSize p count ⊆ live) :
    Released pool live count p (pool.freeContiguous p count) := by
  subst hp
  unfold VecPool.freeContiguous
  rw [if_neg (by omega), h.ownerSlab_eq hslab (by omega)]
  dsimp only
  rw [Nat.add_sub_cancel_left, Nat.mul_div_cancel _ h.sizePos, if_pos hfit]
  exact h.releaseRun_released hslab hfit (h.runSlots_live hslab hfit hlive)

end Palloc
