import Palloc.ZeroInit

/-!
# The bytes that have to be zero

A flag that is set stands for a set of addresses at which memory is zero: the
clean blocks of an arena, the free slices of a segment, the part of a page
that was never carved, and the free blocks of a page up to their link words.

No operation writes to any of these addresses.  What the program and the
allocator write to is a carved block that is not free, the link word of a
carved block, or the info slices of a segment; that these are apart from the
bytes that have to be zero only depends on how arenas, segments, pages and
blocks lie in memory.
-/

namespace Palloc

open ByteMemory

/-- The flags say that memory is zero at `a`. -/
inductive MustBeZero (arenas : ℕ → Option ZeroArena)
    (segments : ℕ → Option ZeroSegment) (pages : ℕ → Option ZeroPage)
    (a : ℕ) : Prop
  /-- A block of an arena that was never handed out. -/
  | arena (arena : ZeroArena) (id i : ℕ) (harena : arenas id = some arena)
      (hzero : arena.initiallyZero = true) (hi : i < arena.blockCount)
      (hclean : i ∉ arena.dirty) (hlo : pieceStart (arena.first + i) ≤ a)
      (hhi : a < pieceStart (arena.first + i + 1))
  /-- A free slice of a segment. -/
  | slice (seg : ZeroSegment) (n s : ℕ) (hseg : segments n = some seg)
      (hzero : seg.freeIsZero = true) (hs : seg.infoSlices ≤ s)
      (hs' : s < seg.slices) (hfree : ¬PageSlice pages n s)
      (hlo : sliceAt n s ≤ a) (hhi : a < sliceAt n (s + 1))
  /-- The part of a page that was never carved. -/
  | uncarved (page : ZeroPage) (id : ℕ) (hpage : pages id = some page)
      (hzero : page.isZeroInit = true)
      (hlo : page.blockAt page.capacity ≤ a) (hhi : a < page.sliceEnd)
  /-- A free block after its link word. -/
  | free (page : ZeroPage) (id block : ℕ) (hpage : pages id = some page)
      (hzero : page.freeIsZero = true) (hblock : block ∈ page.free)
      (hlo : block + 8 ≤ a) (hhi : a < block + page.blockSize)

/-! ## Where things are -/

structure InBlocks (arena : ZeroArena) (n : ℕ) (seg : ZeroSegment)
    (i count : ℕ) : Prop where
  start : n = arena.first + i
  range : i + count ≤ arena.blockCount
  slices : seg.slices * segmentSliceSize ≤ count * segmentSize
  inuse : Finset.Ico i (i + count) ⊆ arena.inuse

/-- A segment is in its blocks of the arena, which are in use, or it is not
from the arena and apart from it. -/
def SegmentPlace (arena : ZeroArena) (id n : ℕ) (seg : ZeroSegment) : Prop :=
  (∃ i count, seg.memid = some (id, i, count) ∧
    InBlocks arena n seg i count) ∨
  (∀ i count, seg.memid ≠ some (id, i, count)) ∧
    (pieceStart (arena.first + arena.blockCount) ≤ pieceStart n ∨
      seg.segmentEnd n ≤ pieceStart arena.first)

structure BlocksOk (page : ZeroPage) : Prop where
  ok : PageOk page.toBlockPage
  slices : 0 < page.sliceCount
  start : page.sliceStart ≤ page.pageStart
  capacity : page.capacity ≤ page.reserved
  nodup : page.blocks.Nodup
  blockAt : ∀ block ∈ page.blocks, ∃ i < page.capacity, block = page.blockAt i
  flag : page.freeIsZero = true → page.isZeroInit = true

structure ZeroLayout (arenas : ℕ → Option ZeroArena)
    (segments : ℕ → Option ZeroSegment) (pages : ℕ → Option ZeroPage) :
    Prop where
  dirty : ∀ id arena, arenas id = some arena → arena.initiallyZero = true →
    arena.inuse ⊆ arena.dirty
  arenas_apart : ∀ id id' arena arena', id ≠ id' → arenas id = some arena →
    arenas id' = some arena' →
    arena.first + arena.blockCount ≤ arena'.first ∨
      arena'.first + arena'.blockCount ≤ arena.first
  info : ∀ n seg, segments n = some seg →
    0 < seg.infoSlices ∧ seg.infoSlices ≤ seg.slices
  segments_apart : ∀ n n' seg seg', n ≠ n' → segments n = some seg →
    segments n' = some seg' →
    seg.segmentEnd n ≤ pieceStart n' ∨ seg'.segmentEnd n' ≤ pieceStart n
  memids_apart : ∀ n n' seg seg' id i count i' count', n ≠ n' →
    segments n = some seg → segments n' = some seg' →
    seg.memid = some (id, i, count) → seg'.memid = some (id, i', count') →
    Disjoint (Finset.Ico i (i + count)) (Finset.Ico i' (i' + count'))
  memid_arena : ∀ n seg id i count, segments n = some seg →
    seg.memid = some (id, i, count) → ∃ arena, arenas id = some arena
  place : ∀ id n arena seg, arenas id = some arena → segments n = some seg →
    SegmentPlace arena id n seg
  page : ∀ id page, pages id = some page → BlocksOk page
  page_segment : ∀ id page, pages id = some page → ∃ seg,
    segments page.segment = some seg ∧ seg.infoSlices ≤ page.idx ∧
      page.idx + page.sliceCount ≤ seg.slices
  pages_apart : ∀ id id' page page', id ≠ id' → pages id = some page →
    pages id' = some page' → page.segment = page'.segment →
    page.idx + page.sliceCount ≤ page'.idx ∨
      page'.idx + page'.sliceCount ≤ page.idx

variable {arenas : ℕ → Option ZeroArena} {segments : ℕ → Option ZeroSegment}
variable {pages : ℕ → Option ZeroPage} {st : ZeroHeap} {mem : Mem}
variable {a n n' s s' i id block : ℕ} {page page' : ZeroPage}
variable {seg seg' : ZeroSegment} {arena : ZeroArena}

theorem pieceStart_mono (h : n ≤ n') : pieceStart n ≤ pieceStart n' :=
  Nat.mul_le_mul_right segmentSize h

theorem sliceAt_mono (h : s ≤ s') : sliceAt n s ≤ sliceAt n s' :=
  Nat.add_le_add_left (Nat.mul_le_mul_right segmentSliceSize h) _

theorem slice_unique (hlo : sliceAt n s ≤ a) (hhi : a < sliceAt n (s + 1))
    (hlo' : sliceAt n i ≤ a) (hhi' : a < sliceAt n s') : i ≤ s ∧ s < s' := by
  constructor
  · by_contra hlt
    have hle := @sliceAt_mono n (s + 1) i (by omega)
    omega
  · by_contra hlt
    have hle := @sliceAt_mono n s' s (by omega)
    omega

theorem sliceEnd_eq (page : BlockPage) :
    page.sliceEnd = sliceAt page.segment (page.idx + page.sliceCount) := by
  unfold BlockPage.sliceEnd BlockPage.sliceStart sliceAt pieceStart
  rw [Nat.add_assoc, ← Nat.add_mul]

namespace ZeroLayout

/-- A block that is not in use is apart from the segments. -/
theorem unused_block (h : ZeroLayout arenas segments pages)
    (harena : arenas id = some arena) (hseg : segments n = some seg)
    (hi : i < arena.blockCount) (hunused : i ∉ arena.inuse)
    (hlo : pieceStart (arena.first + i) ≤ a)
    (hhi : a < pieceStart (arena.first + i + 1)) :
    a < pieceStart n ∨ seg.segmentEnd n ≤ a := by
  rcases h.place id n arena seg harena hseg with
    ⟨j, count, -, hin⟩ | ⟨-, hafter | hbefore⟩
  · have hstart := hin.start
    have hslices := hin.slices
    have hout : i < j ∨ j + count ≤ i := by
      by_contra hmem
      rw [not_or] at hmem
      exact hunused (hin.inuse (Finset.mem_Ico.mpr (by omega)))
    rw [hstart]
    rcases hout with hlt | hge
    · have hle := @pieceStart_mono (arena.first + i + 1) (arena.first + j)
        (by omega)
      omega
    · have hle := @pieceStart_mono (arena.first + j + count)
        (arena.first + i) (by omega)
      have hend : pieceStart (arena.first + j + count) =
          pieceStart (arena.first + j) + count * segmentSize :=
        Nat.add_mul _ _ _
      unfold ZeroSegment.segmentEnd
      omega
  · have hle := @pieceStart_mono (arena.first + i + 1)
      (arena.first + arena.blockCount) (by omega)
    omega
  · have hle := @pieceStart_mono arena.first (arena.first + i) (by omega)
    omega

/-- The bytes of a segment have to be zero only through its own slices and
pages. -/
theorem mustBeZero_cases (h : ZeroLayout arenas segments pages)
    (hseg : segments n = some seg) (hlo : pieceStart n ≤ a)
    (hhi : a < seg.segmentEnd n)
    (hzero : MustBeZero arenas segments pages a) :
    (∃ s, seg.freeIsZero = true ∧ seg.infoSlices ≤ s ∧
      ¬PageSlice pages n s ∧ sliceAt n s ≤ a ∧ a < sliceAt n (s + 1)) ∨
    ∃ id page, pages id = some page ∧ page.segment = n ∧
      page.sliceStart ≤ a ∧ a < page.sliceEnd ∧
      ((page.isZeroInit = true ∧ page.blockAt page.capacity ≤ a) ∨
        (page.freeIsZero = true ∧ ∃ block ∈ page.free, block + 8 ≤ a ∧
          a < block + page.blockSize)) := by
  have hsame : ∀ {m : ℕ} {other : ZeroSegment}, segments m = some other →
      pieceStart m ≤ a → a < other.segmentEnd m → m = n := by
    intro m other hother hlo' hhi'
    by_contra hne
    have hapart := h.segments_apart m n other seg hne hother hseg
    omega
  have hpageIn : ∀ {id : ℕ} {page : ZeroPage}, pages id = some page →
      page.sliceStart ≤ a → a < page.sliceEnd → page.segment = n := by
    intro id page hpage hlo' hhi'
    obtain ⟨other, hother, -, hend⟩ := h.page_segment id page hpage
    have hmono := @sliceAt_mono page.segment _ _ hend
    have hstart : pieceStart page.segment ≤ page.sliceStart :=
      Nat.le_add_right _ _
    rw [sliceEnd_eq] at hhi'
    exact hsame hother (hstart.trans hlo') (hhi'.trans_le hmono)
  cases hzero with
  | arena arena id i harena hinit hi hclean hblo hbhi =>
      have hunused : i ∉ arena.inuse := fun hin =>
        hclean (h.dirty id arena harena hinit hin)
      have hout := h.unused_block harena hseg hi hunused hblo hbhi
      omega
  | slice other m s hother hflag hs hs' hfree hslo hshi =>
      have hstart : pieceStart m ≤ sliceAt m s := Nat.le_add_right _ _
      have hend : sliceAt m (s + 1) ≤ sliceAt m other.slices :=
        sliceAt_mono hs'
      obtain rfl := hsame hother (by omega) (hshi.trans_le hend)
      obtain rfl := Option.some.inj (hother.symm.trans hseg)
      exact Or.inl ⟨s, hflag, hs, hfree, hslo, hshi⟩
  | uncarved page id hpage hflag hplo hphi =>
      have hstart : page.pageStart ≤ page.blockAt page.capacity :=
        Nat.le_add_right _ _
      have hslo := ((h.page id page hpage).start.trans hstart).trans hplo
      exact Or.inr ⟨id, page, hpage, hpageIn hpage hslo hphi, hslo, hphi,
        Or.inl ⟨hflag, hplo⟩⟩
  | free page id block hpage hflag hblock hplo hphi =>
      have hok := h.page id page hpage
      obtain ⟨i, hi, hat⟩ := hok.blockAt block (by simp [ZeroPage.blocks, hblock])
      have harea := hok.ok.area i (hi.trans_le hok.capacity)
      rw [← hat] at harea
      have hslo : page.sliceStart ≤ a := by omega
      have hshi : a < page.sliceEnd := by omega
      exact Or.inr ⟨id, page, hpage, hpageIn hpage hslo hshi, hslo, hshi,
        Or.inr ⟨hflag, block, hblock, hplo, hphi⟩⟩

theorem info_not_zero (h : ZeroLayout arenas segments pages)
    (hseg : segments n = some seg) (hlo : pieceStart n ≤ a)
    (hhi : a < sliceAt n seg.infoSlices) :
    ¬MustBeZero arenas segments pages a := by
  intro hzero
  have hend : sliceAt n seg.infoSlices ≤ seg.segmentEnd n :=
    sliceAt_mono (h.info n seg hseg).2
  rcases h.mustBeZero_cases hseg hlo (hhi.trans_le hend) hzero with
    ⟨s, -, hs, -, hslo, -⟩ | ⟨id, page, hpage, rfl, hslo, -⟩
  · have hle := @sliceAt_mono n _ _ hs
    omega
  · obtain ⟨other, hother, hidx, -⟩ := h.page_segment id page hpage
    obtain rfl := Option.some.inj (hother.symm.trans hseg)
    have hle := @sliceAt_mono page.segment _ _ hidx
    have hstart : page.sliceStart = sliceAt page.segment page.idx := rfl
    omega

theorem carved_not_zero (h : ZeroLayout arenas segments pages)
    (hpage : pages id = some page) (hblock : block ∈ page.blocks)
    (hlo : block ≤ a) (hhi : a < block + page.blockSize)
    (hwrite : block ∉ page.free ∨ a < block + 8) :
    ¬MustBeZero arenas segments pages a := by
  intro hzero
  have hok := h.page id page hpage
  obtain ⟨i, hi, hat⟩ := hok.blockAt block hblock
  have harea := hok.ok.area i (hi.trans_le hok.capacity)
  rw [← hat] at harea
  obtain ⟨seg, hseg, hidx, hend⟩ := h.page_segment id page hpage
  have hstart : page.sliceStart = sliceAt page.segment page.idx := rfl
  have hpiece : pieceStart page.segment ≤ sliceAt page.segment page.idx :=
    Nat.le_add_right _ _
  have hmono : sliceAt page.segment (page.idx + page.sliceCount) ≤
      seg.segmentEnd page.segment := sliceAt_mono hend
  have hsliceEnd := sliceEnd_eq page.toBlockPage
  rcases h.mustBeZero_cases hseg (by omega) (by omega) hzero with
    ⟨s, -, hs, hfree, hslo, hshi⟩ |
    ⟨id', page', hpage', hsame, hslo, hshi, hcases⟩
  · apply hfree
    obtain ⟨hle, hlt⟩ := slice_unique hslo hshi
      (show sliceAt page.segment page.idx ≤ a by omega)
      (show a < sliceAt page.segment (page.idx + page.sliceCount) by omega)
    exact ⟨id, page, hpage, rfl, hle, hlt⟩
  · by_cases hid : id = id'
    · subst hid
      obtain rfl := Option.some.inj (hpage.symm.trans hpage')
      rcases hcases with ⟨-, hcap⟩ | ⟨-, other, hother, holo, hohi⟩
      · have hle : page.blockAt i + page.blockSize ≤
            page.blockAt page.capacity := by
          unfold BlockPage.blockAt
          rw [Nat.add_assoc, ← Nat.succ_mul]
          exact Nat.add_le_add_left (Nat.mul_le_mul_right _ hi) _
        omega
      · obtain ⟨j, hj, hjat⟩ := hok.blockAt other
          (by simp [ZeroPage.blocks, hother])
        by_cases hij : i = j
        · subst hij
          rcases hwrite with hnot | hlink
          · rw [hat, ← hjat] at hnot
            exact hnot hother
          · omega
        · have hapart := @blockAt_apart page.toBlockPage i j hij
          omega
    · have hapart := h.pages_apart id id' page page' hid hpage hpage'
        hsame.symm
      have hend' := sliceEnd_eq page'.toBlockPage
      have hstart' : page'.sliceStart = sliceAt page'.segment page'.idx := rfl
      rw [hsame] at hend' hstart'
      rcases hapart with hbefore | hafter
      · have hle := @sliceAt_mono page.segment _ _ hbefore
        omega
      · have hle := @sliceAt_mono page.segment _ _ hafter
        omega

end ZeroLayout

end Palloc
