import Palloc.ZeroInitSegments
import Mathlib.Logic.Relation

/-!
# Memory that is said to be zero is zero in every run

Every step keeps the invariant.  So in every reachable state a page whose
flag is set has free blocks that are zero after their link words, the part of
a page that was never carved is zero if the page was zero initialised, and a
block that a zero-initialised allocation takes from a page is zero over its
whole usable size, whether the allocation clears it or relies on the flag.
-/

namespace Palloc

open ByteMemory

variable {b : BlockBuild} {st st' : ZeroHeap} {mem mem' : Mem}
variable {a n i count slices infoSlices id : ℕ} {page : ZeroPage}
variable {seg : ZeroSegment} {arena : ZeroArena}

/-! ## Memory from an arena -/

theorem ZeroArena.alloc_kept (arena : ZeroArena) (mask : Finset ℕ)
    (commit : Bool) (osCommit : Option Bool) :
    (arena.alloc mask commit osCommit).1.inuse = arena.inuse ∪ mask ∧
      (arena.alloc mask commit osCommit).1.first = arena.first ∧
      (arena.alloc mask commit osCommit).1.blockCount = arena.blockCount ∧
      (arena.alloc mask commit osCommit).1.initiallyZero =
        arena.initiallyZero ∧
      (arena.alloc mask commit osCommit).1.dirty =
        if arena.initiallyZero then arena.dirty ∪ mask else arena.dirty := by
  unfold ZeroArena.alloc
  dsimp only
  split
  · exact ⟨rfl, rfl, rfl, rfl, rfl⟩
  · split
    · split
      · exact ⟨rfl, rfl, rfl, rfl, rfl⟩
      · split <;> exact ⟨rfl, rfl, rfl, rfl, rfl⟩
    · split <;> exact ⟨rfl, rfl, rfl, rfl, rfl⟩

/-- Memory is said to be zero because it is clean, or because the commit says
so. -/
theorem ZeroArena.alloc_zero {mask : Finset ℕ} {commit : Bool}
    {osCommit : Option Bool}
    (h : (arena.alloc mask commit osCommit).2.initiallyZero = true) :
    arena.initiallyZero = true ∧ Disjoint arena.dirty mask ∨
      osCommit = some true := by
  have hclean : (arena.initiallyZero && decide (Disjoint arena.dirty mask)) =
      true → arena.initiallyZero = true ∧ Disjoint arena.dirty mask := by
    intro hzero
    obtain ⟨hinit, hdisj⟩ := Bool.and_eq_true_iff.mp hzero
    exact ⟨hinit, of_decide_eq_true hdisj⟩
  unfold ZeroArena.alloc at h
  dsimp only at h
  split at h
  · exact Or.inl (hclean h)
  · split at h
    · split at h
      · exact Or.inl (hclean h)
      · split at h
        · exact Or.inl (hclean h)
        · next commitZero =>
            rcases Bool.or_eq_true_iff.mp h with hzero | hzero
            · exact Or.inl (hclean hzero)
            · exact Or.inr (congrArg some hzero)
    · split at h
      · exact Or.inl (hclean h)
      · exact Or.inl (hclean h)

namespace ZeroOk

/-- The segments are apart from blocks that are not in use. -/
theorem unused_apart (h : ZeroOk st) (harena : st.arenas id = some arena)
    (hrange : i + n ≤ arena.blockCount) (hpos : 0 < n)
    (hfree : Disjoint arena.inuse (Finset.Ico i (i + n))) {k : ℕ}
    (hseg : st.segments k = some seg) :
    pieceStart (arena.first + i + n) ≤ pieceStart k ∨
      seg.segmentEnd k ≤ pieceStart (arena.first + i) := by
  rcases h.layout.place id k arena seg harena hseg with
    ⟨j, count, -, hin⟩ | ⟨-, hafter | hbefore⟩
  · have hstart := hin.start
    have hslices := hin.slices
    have hdisj := hfree.mono_left hin.inuse
    have hcount : 0 < count := by
      by_contra hzero
      obtain rfl : count = 0 := by omega
      have hinfo := h.layout.info k seg hseg
      unfold segmentSliceSize at hslices
      omega
    have hout : i + n ≤ j ∨ j + count ≤ i := by
      by_contra hmeet
      rw [not_or] at hmeet
      exact Finset.disjoint_left.mp hdisj
        (Finset.mem_Ico.mpr (show j ≤ max i j ∧ max i j < j + count by omega))
        (Finset.mem_Ico.mpr (by omega))
    rcases hout with hle | hle
    · left
      rw [hstart]
      exact pieceStart_mono (by omega)
    · right
      have hmono := @pieceStart_mono (arena.first + j + count)
        (arena.first + i) (by omega)
      have hend : pieceStart (arena.first + j + count) =
          pieceStart (arena.first + j) + count * segmentSize :=
        Nat.add_mul _ _ _
      unfold ZeroSegment.segmentEnd
      rw [hstart]
      omega
  · left
    exact (pieceStart_mono (by omega)).trans hafter
  · right
    exact hbefore.trans (pieceStart_mono (by omega))

theorem segment_none (h : ZeroOk st)
    (hapart : ∀ k seg, st.segments k = some seg →
      pieceStart (n + count) ≤ pieceStart k ∨
        seg.segmentEnd k ≤ pieceStart n) (hpos : 0 < count) :
    st.segments n = none := by
  by_contra hsome
  obtain ⟨seg, hseg⟩ := Option.ne_none_iff_exists'.mp hsome
  have hinfo := h.layout.info n seg hseg
  have hout := hapart n seg hseg
  unfold ZeroSegment.segmentEnd pieceStart segmentSliceSize segmentSize at hout
  omega

theorem clean_zero (h : ZeroOk st) (harena : st.arenas id = some arena)
    (hinit : arena.initiallyZero = true) (hrange : i + n ≤ arena.blockCount)
    (hclean : Disjoint arena.dirty (Finset.Ico i (i + n))) :
    AllBytes st.mem (pieceStart (arena.first + i))
      (pieceStart (arena.first + i + n)) 0 := by
  intro a hlo hhi
  obtain ⟨k, hk, hk', hklo, hkhi⟩ := @exists_cell a 0 segmentSize
    (arena.first + i) (arena.first + i + n)
    (by rw [Nat.zero_add]; exact hlo) (by rw [Nat.zero_add]; exact hhi)
  rw [Nat.zero_add] at hklo hkhi
  apply h.zero
  refine .arena arena id (k - arena.first) harena hinit (by omega) ?_ ?_ ?_
  · exact fun hin => Finset.disjoint_left.mp hclean hin
      (Finset.mem_Ico.mpr (by omega))
  · rw [Nat.add_sub_cancel' (by omega)]
    exact hklo
  · rw [Nat.add_sub_cancel' (by omega)]
    exact hkhi

end ZeroOk

theorem SegmentPlace.change {arena' : ZeroArena}
    (h : SegmentPlace arena id n seg) (hfirst : arena'.first = arena.first)
    (hcount : arena'.blockCount = arena.blockCount)
    (hinuse : ∀ i count, seg.memid = some (id, i, count) →
      Finset.Ico i (i + count) ⊆ arena.inuse →
      Finset.Ico i (i + count) ⊆ arena'.inuse) :
    SegmentPlace arena' id n seg := by
  rcases h with ⟨i, count, hmemid, hin⟩ | hout
  · refine Or.inl ⟨i, count, hmemid, ?_, ?_, hin.slices,
      hinuse i count hmemid hin.inuse⟩
    · rw [hfirst]
      exact hin.start
    · rw [hcount]
      exact hin.range
  · rw [← hfirst, ← hcount] at hout
    exact Or.inr hout

namespace ZeroOk

theorem segmentFromArena {commit : Bool} {osCommit : Option Bool}
    (h : ZeroOk st) (harena : st.arenas id = some arena)
    (hrange : i + n ≤ arena.blockCount)
    (hfree : Disjoint arena.inuse (Finset.Ico i (i + n)))
    (hslices : slices * segmentSliceSize ≤ n * segmentSize)
    (hinfo : 0 < infoSlices ∧ infoSlices ≤ slices)
    (hzero : osCommit = some true →
      AllBytes st.mem (pieceStart (arena.first + i))
        (pieceStart (arena.first + i + n)) 0)
    (hmem : ChangesOnly (pieceStart (arena.first + i))
      (sliceAt (arena.first + i) infoSlices) st.mem mem) :
    ZeroOk
      { st with
        mem := mem
        arenas := Function.update st.arenas id (some
          (arena.alloc (Finset.Ico i (i + n)) commit osCommit).1)
        segments := Function.update st.segments (arena.first + i) (some
          (segmentInit (some (id, i, n)) slices infoSlices
            (arena.alloc (Finset.Ico i (i + n)) commit osCommit).2)) } := by
  obtain ⟨hinuse, hfirst, hblocks, hinit, hdirty⟩ :=
    arena.alloc_kept (Finset.Ico i (i + n)) commit osCommit
  have hgrant := @ZeroArena.alloc_zero arena (Finset.Ico i (i + n)) commit
    osCommit
  generalize arena.alloc (Finset.Ico i (i + n)) commit osCommit = granted
    at hinuse hfirst hblocks hinit hdirty hgrant ⊢
  have hpos : 0 < n := by
    by_contra hnone
    obtain rfl : n = 0 := by omega
    unfold segmentSliceSize at hslices
    omega
  have hkept : ArenaKept arena granted.1 := by
    refine ⟨hfirst, hblocks, hinit, ?_⟩
    rw [hdirty]
    split
    · exact Finset.subset_union_left
    · exact Finset.Subset.refl _
  have harenaOk : ZeroOk
      { st with arenas := Function.update st.arenas id (some granted.1) } := by
    apply h.setArena harena hkept
    · intro hset
      rw [hinit] at hset
      rw [hinuse, hdirty, if_pos hset]
      exact Finset.union_subset_union_left
        (h.layout.dirty id arena harena hset)
    · intro k other hother
      apply (h.layout.place id k arena other harena hother).change hfirst
        hblocks
      intro j count _ hsub
      rw [hinuse]
      exact hsub.trans Finset.subset_union_left
  have hapart : ∀ k other, st.segments k = some other →
      pieceStart (arena.first + i + n) ≤ pieceStart k ∨
        other.segmentEnd k ≤ pieceStart (arena.first + i) :=
    fun k other hother => h.unused_apart harena hrange hpos hfree hother
  have hend : (segmentInit (some (id, i, n)) slices infoSlices
      granted.2).segmentEnd (arena.first + i) ≤
      pieceStart (arena.first + i + n) := by
    have hadd : pieceStart (arena.first + i + n) =
        pieceStart (arena.first + i) + n * segmentSize := Nat.add_mul _ _ _
    rw [hadd]
    exact Nat.add_le_add_left hslices _
  have hsegmentOk : ZeroOk
      { st with
        arenas := Function.update st.arenas id (some granted.1)
        segments := Function.update st.segments (arena.first + i) (some
          (segmentInit (some (id, i, n)) slices infoSlices
            granted.2)) } := by
    apply harenaOk.addSegment
    · exact harenaOk.segment_none hapart hpos
    · exact hinfo
    · intro k other hother
      rcases hapart k other hother with hafter | hbefore
      · exact Or.inl (hend.trans hafter)
      · exact Or.inr hbefore
    · intro k other id' j count j' count' hother hmemid hmemid'
      cases hmemid
      rcases h.layout.place id k arena other harena hother with
        ⟨l, count', hmemid'', hin⟩ | ⟨hne, -⟩
      · cases hmemid''.symm.trans hmemid'
        exact (hfree.mono_left hin.inuse).symm
      · exact absurd hmemid' (hne j' count')
    · intro id' j count hmemid
      cases hmemid
      exact ⟨granted.1, Function.update_self _ _ _⟩
    · intro id' other hother
      rcases update_eq_some hother with ⟨rfl, heq⟩ | ⟨hne, hold⟩
      · obtain rfl := Option.some.inj heq
        refine Or.inl ⟨i, n, rfl, ?_, ?_, hslices, ?_⟩
        · rw [hfirst]
        · rw [hblocks]
          exact hrange
        · rw [hinuse]
          exact Finset.subset_union_right
      · right
        constructor
        · intro j count hmemid
          cases hmemid
          exact hne rfl
        · rcases h.layout.arenas_apart id' id other arena hne hold harena with
            hbefore | hafter
          · left
            exact pieceStart_mono (by omega)
          · right
            exact hend.trans (pieceStart_mono (by omega))
    · intro hset
      have hbytes : AllBytes st.mem (pieceStart (arena.first + i))
          (pieceStart (arena.first + i + n)) 0 := by
        rcases hgrant hset with ⟨hinit', hclean⟩ | hcommit
        · exact h.clean_zero harena hinit' hrange hclean
        · exact hzero hcommit
      exact hbytes.mono le_rfl hend
  exact hsegmentOk.writeInfo (Function.update_self _ _ _) hmem

theorem segmentFromOs {grant : ArenaGrant} {pieces : ℕ} (h : ZeroOk st)
    (hunmapped : st.Unmapped n (n + pieces))
    (hslices : slices * segmentSliceSize ≤ pieces * segmentSize)
    (hinfo : 0 < infoSlices ∧ infoSlices ≤ slices)
    (hzero : grant.initiallyZero = true →
      AllBytes st.mem (pieceStart n) (pieceStart (n + pieces)) 0)
    (hmem : ChangesOnly (pieceStart n) (sliceAt n infoSlices) st.mem mem) :
    ZeroOk
      { st with
        mem := mem
        segments := Function.update st.segments n
          (some (segmentInit none slices infoSlices grant)) } := by
  have hpos : 0 < pieces := by
    by_contra hnone
    obtain rfl : pieces = 0 := by omega
    unfold segmentSliceSize at hslices
    omega
  have hend : (segmentInit none slices infoSlices grant).segmentEnd n ≤
      pieceStart (n + pieces) := by
    have hadd : pieceStart (n + pieces) =
        pieceStart n + pieces * segmentSize := Nat.add_mul _ _ _
    rw [hadd]
    exact Nat.add_le_add_left hslices _
  have hsegmentOk : ZeroOk
      { st with
        segments := Function.update st.segments n
          (some (segmentInit none slices infoSlices grant)) } := by
    apply h.addSegment
    · exact h.segment_none hunmapped.segment hpos
    · exact hinfo
    · intro k other hother
      rcases hunmapped.segment k other hother with hafter | hbefore
      · exact Or.inl (hend.trans hafter)
      · exact Or.inr hbefore
    · intro k other id i count i' count' _ hmemid _
      exact absurd hmemid (Option.some_ne_none _).symm
    · intro id i count hmemid
      exact absurd hmemid (Option.some_ne_none _).symm
    · intro id arena harena
      refine Or.inr ⟨fun i count => (Option.some_ne_none _).symm, ?_⟩
      rcases hunmapped.arena id arena harena with hafter | hbefore
      · exact Or.inr (hend.trans (pieceStart_mono hafter))
      · exact Or.inl (pieceStart_mono hbefore)
    · intro hset
      exact (hzero hset).mono le_rfl hend
  exact hsegmentOk.writeInfo (Function.update_self _ _ _) hmem

theorem segmentFreeArena (h : ZeroOk st) (hseg : st.segments n = some seg)
    (hmemid : seg.memid = some (id, i, count))
    (harena : st.arenas id = some arena)
    (hpages : ∀ id page, st.pages id = some page → page.segment ≠ n) :
    ZeroOk
      { st with
        arenas := Function.update st.arenas id (some
          { arena with
            inuse := arena.inuse \ Finset.Ico i (i + count) })
        segments := Function.update st.segments n none } := by
  have hkept : ArenaKept arena
      { arena with inuse := arena.inuse \ Finset.Ico i (i + count) } :=
    ⟨rfl, rfl, rfl, Finset.Subset.refl _⟩
  apply (h.removeSegment hpages).setArena harena hkept
  · intro hset
    exact Finset.sdiff_subset.trans (h.layout.dirty id arena harena hset)
  · intro k other hother
    rcases update_eq_some hother with ⟨-, heq⟩ | ⟨hne, hold⟩
    · exact absurd heq (Option.some_ne_none other).symm
    · apply (h.layout.place id k arena other harena hold).change hkept.first
        hkept.blockCount
      intro j count' hmemid' hsub
      have hdisj := h.layout.memids_apart k n other seg id j count' i count
        hne hold hseg hmemid' hmemid
      exact Finset.subset_sdiff.mpr ⟨hsub, hdisj⟩

/-! ## Steps -/

theorem manage (h : ZeroOk st) (hid : st.arenas id = none)
    (hinuse : arena.inuse = ∅)
    (hunmapped : st.Unmapped arena.first (arena.first + arena.blockCount))
    (hzero : arena.initiallyZero = true →
      AllBytes st.mem (pieceStart arena.first)
        (pieceStart (arena.first + arena.blockCount)) 0) :
    ZeroOk
      { st with arenas := Function.update st.arenas id (some arena) } := by
  have hmemid : ∀ k seg, st.segments k = some seg →
      ∀ i count, seg.memid ≠ some (id, i, count) := by
    intro k seg hseg i count hsame
    obtain ⟨old, hold⟩ := h.layout.memid_arena k seg id i count hseg hsame
    exact absurd (hid.symm.trans hold) (Option.some_ne_none old).symm
  constructor
  · constructor
    · intro k other hother
      rcases update_eq_some hother with ⟨-, heq⟩ | ⟨-, hold⟩
      · obtain rfl := Option.some.inj heq
        rw [hinuse]
        exact fun _ => Finset.empty_subset _
      · exact h.layout.dirty k other hold
    · intro k k' other other' hne hother hother'
      rcases update_eq_some hother with ⟨rfl, heq⟩ | ⟨-, hold⟩
      · obtain rfl := Option.some.inj heq
        rcases update_eq_some hother' with ⟨hk, -⟩ | ⟨-, hold'⟩
        · exact absurd hk.symm hne
        · exact hunmapped.arena k' other' hold'
      · rcases update_eq_some hother' with ⟨rfl, heq⟩ | ⟨-, hold'⟩
        · obtain rfl := Option.some.inj heq
          exact (hunmapped.arena k other hold).symm
        · exact h.layout.arenas_apart k k' other other' hne hold hold'
    · exact h.layout.info
    · exact h.layout.segments_apart
    · exact h.layout.memids_apart
    · intro n seg k i count hseg hsame
      obtain ⟨old, hold⟩ := h.layout.memid_arena n seg k i count hseg hsame
      have hne : k ≠ id := by
        rintro rfl
        exact hmemid n seg hseg i count hsame
      exact ⟨old, (Function.update_of_ne hne _ _).trans hold⟩
    · intro k n other seg hother hseg
      rcases update_eq_some hother with ⟨rfl, heq⟩ | ⟨-, hold⟩
      · obtain rfl := Option.some.inj heq
        exact Or.inr ⟨hmemid n seg hseg, hunmapped.segment n seg hseg⟩
      · exact h.layout.place k n other seg hold hseg
    · exact h.layout.page
    · exact h.layout.page_segment
    · exact h.layout.pages_apart
  · intro a hmust
    cases hmust with
    | arena other k i hother hinit hi hclean hlo hhi =>
        rcases update_eq_some hother with ⟨-, heq⟩ | ⟨-, hold⟩
        · obtain rfl := Option.some.inj heq
          have hlo' := @pieceStart_mono arena.first (arena.first + i)
            (by omega)
          have hhi' := @pieceStart_mono (arena.first + i + 1)
            (arena.first + arena.blockCount) (by omega)
          exact hzero hinit a (hlo'.trans hlo) (hhi.trans_le hhi')
        · exact h.zero a (.arena other k i hold hinit hi hclean hlo hhi)
    | slice seg n s hseg hflag hs hs' hfree hlo hhi =>
        exact h.zero a (.slice seg n s hseg hflag hs hs' hfree hlo hhi)
    | uncarved page id hpage hflag hlo hhi =>
        exact h.zero a (.uncarved page id hpage hflag hlo hhi)
    | free page id block hpage hflag hblock hlo hhi =>
        exact h.zero a (.free page id block hpage hflag hblock hlo hhi)

theorem pageAlloc {addr idx sliceCount blockSize : ℕ} {isHuge osZero : Bool}
    {keys : FreeListKeys} (h : ZeroOk st) (hid : st.pages id = none)
    (hcount : 0 < sliceCount) (hseg : st.segments n = some seg)
    (hlo : seg.infoSlices ≤ idx) (hhi : idx + sliceCount ≤ seg.slices)
    (hfree : ∀ s, idx ≤ s → s < idx + sliceCount → ¬PageSlice st.pages n s)
    (hpos : 0 < blockSize) (hword : intptrSize ∣ blockSize)
    (hlarge : isHuge = false → blockSize ≤ largeObjSizeMax)
    (hzero : osZero = true →
      AllBytes st.mem (sliceAt n idx) (sliceAt n (idx + sliceCount)) 0) :
    ZeroOk
      { st with
        segments := Function.update st.segments n
          (some (seg.ensureCommitted idx sliceCount osZero).1)
        pages := Function.update st.pages id (some
          (zeroPageInit addr n idx sliceCount blockSize isHuge keys
            seg.freeIsZero
            (seg.ensureCommitted idx sliceCount osZero).2)) } := by
  have hkept := ensureCommitted_kept seg idx sliceCount osZero
  have hcommitted := @ensureCommitted_zero seg idx sliceCount osZero
  generalize seg.ensureCommitted idx sliceCount osZero = committed
    at hkept hcommitted ⊢
  have hslices : seg.freeIsZero = true →
      AllBytes st.mem (sliceAt n idx) (sliceAt n (idx + sliceCount)) 0 := by
    intro hflag a hlo' hhi'
    obtain ⟨s, hs, hs', hslo, hshi⟩ := exists_cell hlo' hhi'
    exact h.zero a (.slice seg n s hseg hflag (by omega) (by omega)
      (hfree s hs hs') hslo hshi)
  have hok : BlocksOk (zeroPageInit addr n idx sliceCount blockSize isHuge
      keys seg.freeIsZero committed.2) := by
    constructor
    · exact blockPageInit_ok hcount hpos hword hlarge
    · exact hcount
    · exact Nat.le_add_right _ _
    · exact Nat.zero_le _
    · exact List.nodup_nil
    · intro block hblock
      exact absurd hblock List.not_mem_nil
    · exact fun hflag => hflag
  apply (h.setSegment hseg hkept).addPage hid hok rfl
  · refine ⟨committed.1, Function.update_self _ _ _, ?_, ?_⟩
    · rw [hkept.infoSlices]
      exact hlo
    · rw [hkept.slices]
      exact hhi
  · exact hfree
  · intro hset
    rw [sliceEnd_eq]
    rcases Bool.or_eq_true_iff.mp hset with hflag | hnew
    · exact hslices hflag
    · exact hzero (hcommitted hnew)

theorem pageFree {mask : Finset ℕ} (h : ZeroOk st)
    (hpage : st.pages id = some page)
    (hseg : st.segments page.segment = some seg) :
    ZeroOk
      { st with
        segments := Function.update st.segments page.segment (some
          { seg.schedulePurge mask with freeIsZero := false })
        pages := Function.update st.pages id none } := by
  have hkept : SegmentKept seg
      { seg.schedulePurge mask with freeIsZero := false } :=
    ⟨rfl, rfl, rfl, fun hflag => absurd hflag Bool.false_ne_true⟩
  apply (h.setSegment hseg hkept).removePage hpage
  intro other hother
  rcases update_eq_some hother with ⟨-, heq⟩ | ⟨hne, -⟩
  · obtain rfl := Option.some.inj heq
    rfl
  · exact absurd rfl hne

theorem step (h : ZeroOk st) (hstep : ZeroStep b st st') : ZeroOk st' := by
  cases hstep with
  | manage id arena hid hinuse hunmapped hzero =>
      exact h.manage hid hinuse hunmapped hzero
  | segmentFromArena id i n slices infoSlices commit osCommit mem harena
      hrange hfree hslices hinfo hzero hmem =>
      exact h.segmentFromArena harena hrange hfree hslices hinfo hzero hmem
  | segmentFromOs n pieces slices infoSlices grant mem hunmapped hslices hinfo
      hzero hmem =>
      exact h.segmentFromOs hunmapped hslices hinfo hzero hmem
  | segmentFreeOs n hseg hmemid hpages => exact h.removeSegment hpages
  | segmentFreeArena n id i count hseg hmemid harena hpages =>
      exact h.segmentFreeArena hseg hmemid harena hpages
  | @purge seg n mask decommitted mem hseg hmem =>
      have hkept : SegmentKept seg (seg.purged mask decommitted) :=
        ⟨rfl, rfl, rfl, fun hflag => hflag⟩
      exact (h.setMem fun a _ => hmem a).setSegment hseg hkept
  | @arenaPurge arena id committed mem harena hmem =>
      have hkept : ArenaKept arena { arena with committed := committed } :=
        ⟨rfl, rfl, rfl, Finset.Subset.refl _⟩
      apply (h.setMem fun a _ => hmem a).setArena harena hkept
      · exact h.layout.dirty id arena harena
      · intro n seg hseg
        exact (h.layout.place id n arena seg harena hseg).change hkept.first
          hkept.blockCount (fun _ _ _ hsub => hsub)
  | @schedulePurge seg n mask hseg =>
      have hkept : SegmentKept seg (seg.schedulePurge mask) :=
        ⟨rfl, rfl, rfl, fun hflag => hflag⟩
      exact h.setSegment hseg hkept
  | info n mem hseg hmem => exact h.writeInfo hseg hmem
  | pageAlloc id n addr idx sliceCount blockSize isHuge keys osZero hid hcount
      hseg hlo hhi hfree hpos hword hlarge hzero =>
      exact h.pageAlloc hid hcount hseg hlo hhi hfree hpos hword hlarge hzero
  | pageExtend id extend new mem hpage hextend hnew hmem =>
      exact h.extend hpage hextend hnew hmem
  | malloc id block asked rest zero hpage hfree => exact h.malloc hpage hfree
  | write id block mem hpage hblock hmem => exact h.write hpage hblock hmem
  | freeLocal id block link hpage hblock => exact h.freeLocal hpage hblock
  | freeMt id block link mem hpage hblock hmem =>
      exact h.freeMt hpage hblock hmem
  | collect id force mem hpage hmem => exact h.collect hpage hmem
  | pageFree id mask hpage hlive hseg => exact h.pageFree hpage hseg

theorem start (mem : Mem) : ZeroOk (ZeroHeap.start mem) where
  layout := by
    constructor <;> (intros; contradiction)
  zero := by
    intro a hzero
    cases hzero <;> contradiction

theorem run {mem : Mem}
    (hrun : Relation.ReflTransGen (ZeroStep b) (ZeroHeap.start mem) st) :
    ZeroOk st := by
  induction hrun with
  | refl => exact start mem
  | tail _ hstep ih => exact ih.step hstep

/-! ## What the flags promise -/

theorem free_zero (h : ZeroOk st) (hpage : st.pages id = some page)
    (hflag : page.freeIsZero = true) {block : ℕ} (hblock : block ∈ page.free) :
    AllBytes st.mem (block + 8) (block + page.blockSize) 0 :=
  fun a hlo hhi => h.zero a (.free page id block hpage hflag hblock hlo hhi)

theorem uncarved_zero (h : ZeroOk st) (hpage : st.pages id = some page)
    (hflag : page.isZeroInit = true) :
    AllBytes st.mem (page.blockAt page.capacity) page.sliceEnd 0 :=
  fun a hlo hhi => h.zero a (.uncarved page id hpage hflag hlo hhi)

end ZeroOk

/-- In every reachable state: all usable bytes of a block that a
zero-initialised allocation returns are zero, the free blocks of a page are
zero after their link words if the page says so, and the part of a page that
was never carved is zero if the page was zero initialised. -/
theorem zero_init_run (b : BlockBuild) (start : Mem) (st : ZeroHeap)
    (hrun : Relation.ReflTransGen (ZeroStep b) (ZeroHeap.start start) st)
    (id : ℕ) (page : ZeroPage) (hpage : st.pages id = some page) :
    (∀ block rest asked, page.free = block :: rest →
      BlockHeap.requestSize b asked ≤ page.blockSize →
      let mem := finishAlloc b st.mem page.toBlockPage block
        (BlockHeap.requestSize b asked) true
      asked ≤ pageUsableSizeOf b mem page.toBlockPage block ∧
        AllBytes mem block
          (block + pageUsableSizeOf b mem page.toBlockPage block) 0) ∧
      (page.freeIsZero = true → ∀ block ∈ page.free,
        AllBytes st.mem (block + 8) (block + page.blockSize) 0) ∧
      (page.isZeroInit = true →
        AllBytes st.mem (page.blockAt page.capacity) page.sliceEnd 0) := by
  have h := ZeroOk.run hrun
  refine ⟨?_, fun hflag block => h.free_zero hpage hflag,
    h.uncarved_zero hpage⟩
  intro block rest asked hfree hfits
  apply finishAlloc_zero (h.layout.page id page hpage).ok hfits
  intro hflag
  have hblock : block ∈ page.free := by
    rw [hfree]
    exact List.mem_cons_self
  apply (h.free_zero hpage hflag hblock).mono le_rfl
  unfold usableBlockSize
  omega

/-- A segment that the operating system reports as zero, a page of it and its
first block. -/
theorem zero_init_run_first_block : ∃ st : ZeroHeap, ∃ page : ZeroPage,
    Relation.ReflTransGen (ZeroStep ⟨true, true, true⟩)
      (ZeroHeap.start fun _ => 0) st ∧
    st.pages 0 = some page ∧ page.free = [page.blockAt 0] ∧
    page.freeIsZero = true ∧
    AllBytes (finishAlloc ⟨true, true, true⟩ st.mem page.toBlockPage
        (page.blockAt 0) (BlockHeap.requestSize ⟨true, true, true⟩ 40) true)
      (page.blockAt 0) (page.blockAt 0 + 40) 0 := by
  have hsegment : ZeroStep ⟨true, true, true⟩ (ZeroHeap.start fun _ => 0) _ :=
    .segmentFromOs 1 1 512 1 ⟨true, true⟩ (fun _ => 0)
      ⟨fun _ _ hseg => absurd hseg (Option.some_ne_none _).symm,
        fun _ _ harena => absurd harena (Option.some_ne_none _).symm⟩
      (by decide) (by decide) (fun _ _ _ _ => rfl) (fun _ _ => rfl)
  have hpages := (Relation.ReflTransGen.single hsegment).tail
    (@ZeroStep.pageAlloc _ _ (segmentInit none 512 1 ⟨true, true⟩) 0 1 0 1 1 64
      false ⟨0, 0⟩ false rfl (by decide) rfl (by decide) (by decide)
      (fun _ _ _ ⟨_, page, hpage, _⟩ =>
        absurd hpage (Option.some_ne_none page).symm)
      (by decide) (by decide) (by decide) (fun _ _ _ _ => rfl))
  have hrun := hpages.tail (@ZeroStep.pageExtend _ _ _ 0 1 _ (fun _ => 0) rfl
    (by decide +kernel) (List.Perm.refl _) (fun _ _ => rfl))
  have hzero := (zero_init_run ⟨true, true, true⟩ _ _ hrun 0 _
    rfl).1 _ _ 40 rfl (by decide)
  exact ⟨_, _, hrun, rfl, rfl, rfl,
    hzero.2.mono le_rfl (Nat.add_le_add_left hzero.1 _)⟩

end Palloc
