import Palloc.ArenaBlocks

/-!
# Who owns the blocks

The live allocations of a run own disjoint ranges of blocks; the blocks in use
are those and the leftover bits behind the last block.
-/

namespace Palloc

open BitFields MachineWord

structure LiveBlocks where
  p : ℕ
  memid : ArenaMemid
  blocks : ℕ

/-- Block `b` of the arena `arenaId` belongs to the allocation. -/
def LiveBlocks.Covers (l : LiveBlocks) (arenaId b : ℕ) : Prop :=
  l.memid.arenaId = arenaId ∧ l.memid.blockIndex ≤ b ∧
    b < l.memid.blockIndex + l.blocks

def LiveBlocks.Apart (l l' : LiveBlocks) : Prop :=
  l.memid.arenaId = l'.memid.arenaId →
    l.memid.blockIndex + l.blocks ≤ l'.memid.blockIndex ∨
      l'.memid.blockIndex + l'.blocks ≤ l.memid.blockIndex

theorem LiveBlocks.Apart.symm {l l' : LiveBlocks} (hapart : l.Apart l') :
    l'.Apart l :=
  fun heq => (hapart heq.symm).symm

structure LiveBlocks.Placed (l : LiveBlocks) (i : ℕ) (view : ArenaView) :
    Prop where
  arenaId_eq : l.memid.arenaId = i + 1
  p_eq : l.p = view.start + l.memid.blockIndex * arenaBlockSize
  pos : 0 < l.blocks
  inside : l.memid.blockIndex + l.blocks ≤ view.blockCount

structure Ownership (views : List ArenaView) (live : List LiveBlocks) :
    Prop where
  id_eq : ∀ (i : ℕ) (view : ArenaView), views[i]? = some view → view.id = i + 1
  fields_eq : ∀ (i : ℕ) (view : ArenaView), views[i]? = some view →
    view.fieldCount = divideUp view.blockCount 64
  placed : ∀ l ∈ live, ∃ (i : ℕ) (view : ArenaView), views[i]? = some view ∧ l.Placed i view
  apart : live.Pairwise LiveBlocks.Apart
  inuse : ∀ (i : ℕ) (view : ArenaView), views[i]? = some view → ∀ b,
    bit view.blocksInuse b = true ↔
      (∃ l ∈ live, l.Covers (i + 1) b) ∨
        (view.blockCount ≤ b ∧ b < 64 * view.fieldCount)

variable {views : List ArenaView} {live : List LiveBlocks}
variable {view : ArenaView} {i count b : ℕ} {inuse : Fields}

theorem Ownership.initial : Ownership [] [] := by
  constructor <;> simp

theorem Ownership.blockCount_le (howner : Ownership views live)
    (hview : views[i]? = some view) :
    view.blockCount ≤ 64 * view.fieldCount := by
  have hfields := howner.fields_eq i view hview
  rw [hfields]
  unfold divideUp
  omega

/-- A fresh arena has only its leftover bits in use. -/
theorem Ownership.manage (howner : Ownership views live)
    (hid : view.id = views.length + 1)
    (hfields : view.fieldCount = divideUp view.blockCount 64)
    (hinuse : ∀ b, bit view.blocksInuse b = true ↔
      view.blockCount ≤ b ∧ b < 64 * view.fieldCount) :
    Ownership (views ++ [view]) live := by
  have hget : ∀ {j other}, (views ++ [view])[j]? = some other →
      views[j]? = some other ∨ j = views.length ∧ other = view := by
    intro j other hother
    rw [List.getElem?_append] at hother
    split at hother
    · exact Or.inl hother
    · rename_i hlt
      rcases List.getElem?_eq_some_iff.mp hother with ⟨hlen, heq⟩
      have hzero : j - views.length = 0 := by
        simpa using hlen
      have hother' : other = view := by
        rw [← heq]
        simp [hzero]
      exact Or.inr ⟨by omega, hother'⟩
  have hlt : ∀ {j other}, views[j]? = some other → j < views.length := by
    intro j other hother
    exact (List.getElem?_eq_some_iff.mp hother).1
  constructor
  · intro j other hother
    rcases hget hother with hold | ⟨rfl, rfl⟩
    · exact howner.id_eq j other hold
    · exact hid
  · intro j other hother
    rcases hget hother with hold | ⟨rfl, rfl⟩
    · exact howner.fields_eq j other hold
    · exact hfields
  · intro l hl
    rcases howner.placed l hl with ⟨j, other, hother, hplaced⟩
    refine ⟨j, other, ?_, hplaced⟩
    rw [List.getElem?_append_left (hlt hother)]
    exact hother
  · exact howner.apart
  · intro j other hother c
    rcases hget hother with hold | ⟨rfl, rfl⟩
    · exact howner.inuse j other hold c
    · rw [hinuse c]
      constructor
      · exact Or.inr
      · rintro (⟨l, hl, hcovers⟩ | hleft)
        · -- no allocation lies in an arena that was not there
          rcases howner.placed l hl with ⟨k, old, hold, hplaced⟩
          have hk := hlt hold
          have hsame := hplaced.arenaId_eq
          have harena := hcovers.1
          omega
        · exact hleft

theorem getElem?_set_view {view' : ArenaView} (hview : views[i]? = some view)
    {j : ℕ} {other : ArenaView} :
    (views.set i view')[j]? = some other ↔
      j = i ∧ other = view' ∨ j ≠ i ∧ views[j]? = some other := by
  have hlt := (List.getElem?_eq_some_iff.mp hview).1
  rw [List.getElem?_set]
  by_cases heq : i = j
  · subst heq
    simp [hlt, eq_comm]
  · have hne : j ≠ i := fun h => heq h.symm
    simp [heq, hne]

theorem Ownership.claimed_inside (howner : Ownership views live)
    (hview : views[i]? = some view) (hpos : 0 < count)
    (hclaimed : Claimed view.fieldCount count b view.blocksInuse inuse) :
    b + count ≤ view.blockCount := by
  by_contra hlong
  have hinside := hclaimed.inside
  have hle := howner.blockCount_le hview
  have hclear := hclaimed.clear (max b view.blockCount) (by omega) (by omega)
  have hset := (howner.inuse i view hview (max b view.blockCount)).mpr
    (Or.inr (by omega))
  rw [hset] at hclear
  cases hclear

theorem Ownership.claimed_apart (howner : Ownership views live)
    (hview : views[i]? = some view) (hpos : 0 < count)
    (hclaimed : Claimed view.fieldCount count b view.blocksInuse inuse)
    {l : LiveBlocks} (hl : l ∈ live) (harena : l.memid.arenaId = i + 1) :
    b + count ≤ l.memid.blockIndex ∨ l.memid.blockIndex + l.blocks ≤ b := by
  by_contra hoverlap
  rcases howner.placed l hl with ⟨j, other, hother, hplaced⟩
  have hblocks := hplaced.pos
  have hclear := hclaimed.clear (max b l.memid.blockIndex) (by omega)
    (by omega)
  have hset := (howner.inuse i view hview (max b l.memid.blockIndex)).mpr
    (Or.inl ⟨l, hl, harena, by omega, by omega⟩)
  rw [hset] at hclear
  cases hclear

/-- A new allocation owns what it claimed. -/
theorem Ownership.alloc (howner : Ownership views live)
    (hview : views[i]? = some view) (hpos : 0 < count)
    (hclaimed : Claimed view.fieldCount count b view.blocksInuse inuse)
    {l : LiveBlocks} (harena : l.memid.arenaId = i + 1)
    (hblock : l.memid.blockIndex = b) (hblocks : l.blocks = count)
    (hp : l.p = view.start + b * arenaBlockSize) :
    Ownership (views.set i { view with blocksInuse := inuse })
      (l :: live) := by
  have hinside := howner.claimed_inside hview hpos hclaimed
  constructor
  · intro j other hother
    rcases (getElem?_set_view hview).mp hother with ⟨rfl, rfl⟩ | ⟨-, hold⟩
    · exact howner.id_eq j view hview
    · exact howner.id_eq j other hold
  · intro j other hother
    rcases (getElem?_set_view hview).mp hother with ⟨rfl, rfl⟩ | ⟨-, hold⟩
    · exact howner.fields_eq j view hview
    · exact howner.fields_eq j other hold
  · intro l' hl'
    rcases List.mem_cons.mp hl' with rfl | hold
    · refine ⟨i, _, (getElem?_set_view hview).mpr (Or.inl ⟨rfl, rfl⟩), ?_⟩
      exact ⟨harena, by rw [hblock]; exact hp, by omega,
        by rw [hblock, hblocks]; exact hinside⟩
    · rcases howner.placed l' hold with ⟨j, other, hother, hplaced⟩
      by_cases heq : j = i
      · subst heq
        rw [hview] at hother
        cases hother
        refine ⟨j, _, (getElem?_set_view hview).mpr (Or.inl ⟨rfl, rfl⟩), ?_⟩
        exact ⟨hplaced.arenaId_eq, hplaced.p_eq, hplaced.pos, hplaced.inside⟩
      · exact ⟨j, other, (getElem?_set_view hview).mpr (Or.inr ⟨heq, hother⟩),
          hplaced⟩
  · rw [List.pairwise_cons]
    refine ⟨?_, howner.apart⟩
    intro l' hl' heq
    rw [hblock, hblocks]
    exact howner.claimed_apart hview hpos hclaimed hl'
      (heq.symm.trans harena)
  · intro j other hother c
    rcases (getElem?_set_view hview).mp hother with ⟨rfl, rfl⟩ | ⟨hne, hold⟩
    · show bit inuse c = true ↔ _
      rw [hclaimed.sets c, Bool.or_eq_true, howner.inuse j view hview c,
        decide_eq_true_eq]
      have hnew : l.Covers (j + 1) c ↔ b ≤ c ∧ c < b + count := by
        unfold LiveBlocks.Covers
        rw [hblock, hblocks]
        simp only [harena, true_and]
      simp only [List.mem_cons, exists_eq_or_imp, hnew]
      exact or_right_comm.trans (or_congr_left or_comm)
    · rw [howner.inuse j other hold c]
      have hnew : ¬ l.Covers (j + 1) c := by
        intro hcovers
        have hsame := hcovers.1
        omega
      simp only [List.mem_cons, exists_eq_or_imp, hnew, false_or]

theorem Ownership.mem_eraseIdx (howner : Ownership views live) {k : ℕ}
    {l l' : LiveBlocks} (hl : live[k]? = some l)
    (hl' : l' ∈ live.eraseIdx k) : l' ∈ live ∧ l.Apart l' := by
  rw [List.mem_eraseIdx_iff_getElem?] at hl'
  rcases hl' with ⟨j, hne, hj⟩
  rcases List.getElem?_eq_some_iff.mp hl with ⟨hk, rfl⟩
  rcases List.getElem?_eq_some_iff.mp hj with ⟨hjlt, rfl⟩
  have hpair := List.pairwise_iff_getElem.mp howner.apart
  refine ⟨List.getElem_mem hjlt, ?_⟩
  rcases Nat.lt_or_gt_of_ne hne with hlt | hgt
  · exact (hpair j k hjlt hk hlt).symm
  · exact hpair k j hk hjlt hgt

theorem mem_eraseIdx_or {k : ℕ} {l l' : LiveBlocks} (hl : live[k]? = some l)
    (hl' : l' ∈ live) : l' = l ∨ l' ∈ live.eraseIdx k := by
  rcases List.mem_iff_getElem?.mp hl' with ⟨j, hj⟩
  by_cases heq : j = k
  · subst heq
    rw [hl] at hj
    cases hj
    exact Or.inl rfl
  · exact Or.inr (List.mem_eraseIdx_iff_getElem?.mpr ⟨j, heq, hj⟩)

/-- A freed allocation gives back exactly its blocks. -/
theorem Ownership.free (howner : Ownership views live) {k : ℕ}
    {l : LiveBlocks} (hl : live[k]? = some l)
    (hview : views[i]? = some view) (harena : l.memid.arenaId = i + 1)
    (hclears : Clears view.blocksInuse inuse l.memid.blockIndex
      (l.memid.blockIndex + l.blocks)) :
    Ownership (views.set i { view with blocksInuse := inuse })
      (live.eraseIdx k) := by
  have hplacedHere : l.Placed i view := by
    rcases howner.placed l (List.mem_of_getElem? hl) with
      ⟨j, other, hother, hplaced⟩
    have hsame := hplaced.arenaId_eq
    obtain rfl : j = i := by omega
    rw [hview] at hother
    cases hother
    exact hplaced
  have hinside := hplacedHere.inside
  constructor
  · intro j other hother
    rcases (getElem?_set_view hview).mp hother with ⟨rfl, rfl⟩ | ⟨-, hold⟩
    · exact howner.id_eq j view hview
    · exact howner.id_eq j other hold
  · intro j other hother
    rcases (getElem?_set_view hview).mp hother with ⟨rfl, rfl⟩ | ⟨-, hold⟩
    · exact howner.fields_eq j view hview
    · exact howner.fields_eq j other hold
  · intro l' hl'
    rcases howner.placed l' (howner.mem_eraseIdx hl hl').1 with
      ⟨j, other, hother, hplaced⟩
    by_cases heq : j = i
    · subst heq
      rw [hview] at hother
      cases hother
      refine ⟨j, _, (getElem?_set_view hview).mpr (Or.inl ⟨rfl, rfl⟩), ?_⟩
      exact ⟨hplaced.arenaId_eq, hplaced.p_eq, hplaced.pos, hplaced.inside⟩
    · exact ⟨j, other, (getElem?_set_view hview).mpr (Or.inr ⟨heq, hother⟩),
        hplaced⟩
  · exact howner.apart.sublist (List.eraseIdx_sublist live k)
  · intro j other hother c
    rcases (getElem?_set_view hview).mp hother with ⟨rfl, rfl⟩ | ⟨hne, hold⟩
    · show bit inuse c = true ↔ _
      rw [hclears c, Bool.and_eq_true, howner.inuse j view hview c]
      simp only [Bool.not_eq_true', decide_eq_false_iff_not]
      constructor
      · rintro ⟨⟨l', hl', hcovers⟩ | hleft, hout⟩
        · rcases mem_eraseIdx_or hl hl' with rfl | hkept
          · exact absurd hcovers.2 hout
          · exact Or.inl ⟨l', hkept, hcovers⟩
        · exact Or.inr hleft
      · rintro (⟨l', hl', hcovers⟩ | hleft)
        · rcases howner.mem_eraseIdx hl hl' with ⟨hmem, hapart⟩
          refine ⟨Or.inl ⟨l', hmem, hcovers⟩, ?_⟩
          have hdisjoint := hapart (harena.trans hcovers.1.symm)
          have hlow := hcovers.2.1
          have hhigh := hcovers.2.2
          omega
        · refine ⟨Or.inr hleft, ?_⟩
          show ¬ (l.memid.blockIndex ≤ c ∧ _)
          have hbound : view.blockCount ≤ c := hleft.1
          omega
    · rw [howner.inuse j other hold c]
      constructor
      · rintro (⟨l', hl', hcovers⟩ | hleft)
        · rcases mem_eraseIdx_or hl hl' with rfl | hkept
          · have hsame := hcovers.1
            omega
          · exact Or.inl ⟨l', hkept, hcovers⟩
        · exact Or.inr hleft
      · rintro (⟨l', hl', hcovers⟩ | hleft)
        · exact Or.inl ⟨l', (howner.mem_eraseIdx hl hl').1, hcovers⟩
        · exact Or.inr hleft

end Palloc
