import Palloc.ZeroInitSteps

/-!
# Segments and arenas keep the zero bytes zero

Memory that is handed out by an arena or by the operating system comes with a
report that it is zero.  The report of an arena is right because its blocks
are marked dirty when they are handed out, and stay so when they return.
-/

namespace Palloc

open ByteMemory

variable {arenas : ℕ → Option ZeroArena} {segments : ℕ → Option ZeroSegment}
variable {pages : ℕ → Option ZeroPage} {st : ZeroHeap} {mem : Mem}
variable {a n m s i id : ℕ} {page page' : ZeroPage}
variable {seg seg' : ZeroSegment} {arena arena' : ZeroArena}

theorem update_eq_some {α : Type*} {f : ℕ → Option α} {j : ℕ} {x : Option α}
    {y : α} (h : Function.update f i x j = some y) :
    (j = i ∧ x = some y) ∨ (j ≠ i ∧ f j = some y) := by
  by_cases hj : j = i
  · subst hj
    rw [Function.update_self] at h
    exact Or.inl ⟨rfl, h⟩
  · rw [Function.update_of_ne hj] at h
    exact Or.inr ⟨hj, h⟩

theorem exists_cell {base size lo hi : ℕ} (hlo : base + lo * size ≤ a)
    (hhi : a < base + hi * size) :
    ∃ k, lo ≤ k ∧ k < hi ∧ base + k * size ≤ a ∧
      a < base + (k + 1) * size := by
  have hsize : 0 < size := by
    by_contra hzero
    obtain rfl : size = 0 := by omega
    omega
  refine ⟨(a - base) / size, ?_, ?_, ?_, ?_⟩
  · exact (Nat.le_div_iff_mul_le hsize).mpr (by omega)
  · exact (Nat.div_lt_iff_lt_mul hsize).mpr (by omega)
  · have hle := Nat.div_mul_le_self (a - base) size
    omega
  · have hlt := Nat.lt_mul_div_succ (a - base) hsize
    rw [Nat.mul_comm] at hlt
    omega

/-! ## A segment changes its masks -/

structure SegmentKept (seg seg' : ZeroSegment) : Prop where
  memid : seg'.memid = seg.memid
  slices : seg'.slices = seg.slices
  infoSlices : seg'.infoSlices = seg.infoSlices
  zero : seg'.freeIsZero = true → seg.freeIsZero = true

namespace SegmentKept

theorem segmentEnd_eq (h : SegmentKept seg seg') (n : ℕ) :
    seg'.segmentEnd n = seg.segmentEnd n := by
  unfold ZeroSegment.segmentEnd
  rw [h.slices]

theorem place (h : SegmentKept seg seg')
    (hplace : SegmentPlace arena id n seg) : SegmentPlace arena id n seg' := by
  unfold SegmentPlace
  rw [h.memid, h.segmentEnd_eq]
  rcases hplace with ⟨i, count, hmemid, hin⟩ | hout
  · refine Or.inl ⟨i, count, hmemid, hin.start, hin.range, ?_, hin.inuse⟩
    rw [h.slices]
    exact hin.slices
  · exact Or.inr hout

theorem exists_old (h : SegmentKept seg seg') (hseg : segments n = some seg)
    {other : ZeroSegment}
    (hother : Function.update segments n (some seg') m = some other) :
    ∃ old, segments m = some old ∧ SegmentKept old other := by
  rcases update_eq_some hother with ⟨rfl, heq⟩ | ⟨-, hold⟩
  · obtain rfl := Option.some.inj heq
    exact ⟨seg, hseg, h⟩
  · exact ⟨other, hold, rfl, rfl, rfl, fun hzero => hzero⟩

theorem mustBeZero (h : SegmentKept seg seg') (hseg : segments n = some seg)
    (hzero : MustBeZero arenas (Function.update segments n (some seg')) pages
      a) : MustBeZero arenas segments pages a := by
  cases hzero with
  | arena arena id i harena hinit hi hclean hlo hhi =>
      exact .arena arena id i harena hinit hi hclean hlo hhi
  | slice other m s hother hflag hs hs' hfree hlo hhi =>
      obtain ⟨old, hold, hkept⟩ := h.exists_old hseg hother
      rw [hkept.infoSlices] at hs
      rw [hkept.slices] at hs'
      exact .slice old m s hold (hkept.zero hflag) hs hs' hfree hlo hhi
  | uncarved page id hpage hflag hlo hhi =>
      exact .uncarved page id hpage hflag hlo hhi
  | free page id block hpage hflag hblock hlo hhi =>
      exact .free page id block hpage hflag hblock hlo hhi

theorem layout (h : SegmentKept seg seg') (hseg : segments n = some seg)
    (hlayout : ZeroLayout arenas segments pages) :
    ZeroLayout arenas (Function.update segments n (some seg')) pages := by
  constructor
  · exact hlayout.dirty
  · exact hlayout.arenas_apart
  · intro k other hother
    obtain ⟨old, hold, hkept⟩ := h.exists_old hseg hother
    rw [hkept.infoSlices, hkept.slices]
    exact hlayout.info k old hold
  · intro k k' other other' hne hother hother'
    obtain ⟨old, hold, hkept⟩ := h.exists_old hseg hother
    obtain ⟨old', hold', hkept'⟩ := h.exists_old hseg hother'
    rw [hkept.segmentEnd_eq, hkept'.segmentEnd_eq]
    exact hlayout.segments_apart k k' old old' hne hold hold'
  · intro k k' other other' id i count i' count' hne hother hother' hmemid
      hmemid'
    obtain ⟨old, hold, hkept⟩ := h.exists_old hseg hother
    obtain ⟨old', hold', hkept'⟩ := h.exists_old hseg hother'
    rw [hkept.memid] at hmemid
    rw [hkept'.memid] at hmemid'
    exact hlayout.memids_apart k k' old old' id i count i' count' hne hold
      hold' hmemid hmemid'
  · intro k other id i count hother hmemid
    obtain ⟨old, hold, hkept⟩ := h.exists_old hseg hother
    rw [hkept.memid] at hmemid
    exact hlayout.memid_arena k old id i count hold hmemid
  · intro id k arena other harena hother
    obtain ⟨old, hold, hkept⟩ := h.exists_old hseg hother
    exact hkept.place (hlayout.place id k arena old harena hold)
  · exact hlayout.page
  · intro id page hpage
    obtain ⟨old, hold, hidx, hend⟩ := hlayout.page_segment id page hpage
    by_cases hk : page.segment = n
    · rw [hk] at hold ⊢
      obtain rfl := Option.some.inj (hold.symm.trans hseg)
      refine ⟨seg', Function.update_self _ _ _, ?_, ?_⟩
      · rw [h.infoSlices]
        exact hidx
      · rw [h.slices]
        exact hend
    · refine ⟨old, ?_, hidx, hend⟩
      rw [Function.update_of_ne hk]
      exact hold
  · exact hlayout.pages_apart

end SegmentKept

theorem ZeroOk.setSegment (h : ZeroOk st) (hseg : st.segments n = some seg)
    (hkept : SegmentKept seg seg') :
    ZeroOk
      { st with
        segments := Function.update st.segments n (some seg') } where
  layout := hkept.layout hseg h.layout
  zero := fun a hzero => h.zero a (hkept.mustBeZero hseg hzero)

theorem ensureCommitted_kept (seg : ZeroSegment) (idx count : ℕ)
    (osZero : Bool) : SegmentKept seg (seg.ensureCommitted idx count osZero).1 := by
  unfold ZeroSegment.ensureCommitted
  dsimp only
  split
  · exact ⟨rfl, rfl, rfl, fun hzero => hzero⟩
  · split
    · exact ⟨rfl, rfl, rfl, fun hzero => hzero⟩
    · exact ⟨rfl, rfl, rfl, fun hzero => hzero⟩

/-- Committed memory is said to be zero only if the operating system was asked
and says so. -/
theorem ensureCommitted_zero {idx count : ℕ} {osZero : Bool}
    (h : (seg.ensureCommitted idx count osZero).2 = true) : osZero = true := by
  unfold ZeroSegment.ensureCommitted at h
  dsimp only at h
  split at h
  · exact absurd h Bool.false_ne_true
  · split at h
    · exact absurd h Bool.false_ne_true
    · exact h

/-! ## Pages come and go -/

/-- A new page in free slices; it is zero where its flag says so. -/
theorem ZeroOk.addPage (h : ZeroOk st) (hid : st.pages id = none)
    (hok : BlocksOk page) (hempty : page.free = [])
    (hsegment : ∃ seg, st.segments page.segment = some seg ∧
      seg.infoSlices ≤ page.idx ∧
      page.idx + page.sliceCount ≤ seg.slices)
    (hfree : ∀ s, page.idx ≤ s → s < page.idx + page.sliceCount →
      ¬PageSlice st.pages page.segment s)
    (hzero : page.isZeroInit = true →
      AllBytes st.mem page.sliceStart page.sliceEnd 0) :
    ZeroOk
      { st with pages := Function.update st.pages id (some page) } := by
  have hold : ∀ {n s : ℕ}, PageSlice st.pages n s →
      PageSlice (Function.update st.pages id (some page)) n s := by
    rintro n s ⟨id', p, hp, hrest⟩
    refine ⟨id', p, ?_, hrest⟩
    rw [Function.update_of_ne]
    · exact hp
    · rintro rfl
      exact absurd (hid.symm.trans hp) (Option.some_ne_none p).symm
  have hapart : ∀ {id' : ℕ} {p : ZeroPage}, st.pages id' = some p →
      p.segment = page.segment → p.idx + p.sliceCount ≤ page.idx ∨
        page.idx + page.sliceCount ≤ p.idx := by
    intro id' p hp hsame
    by_contra hmeet
    rw [not_or] at hmeet
    have hpos := (h.layout.page id' p hp).slices
    have hpos' := hok.slices
    exact hfree (max p.idx page.idx) (by omega) (by omega)
      ⟨id', p, hp, hsame, by omega, by omega⟩
  constructor
  · constructor
    · exact h.layout.dirty
    · exact h.layout.arenas_apart
    · exact h.layout.info
    · exact h.layout.segments_apart
    · exact h.layout.memids_apart
    · exact h.layout.memid_arena
    · exact h.layout.place
    · intro id' p hp
      rcases update_eq_some hp with ⟨-, heq⟩ | ⟨-, hold⟩
      · obtain rfl := Option.some.inj heq
        exact hok
      · exact h.layout.page id' p hold
    · intro id' p hp
      rcases update_eq_some hp with ⟨-, heq⟩ | ⟨-, hold⟩
      · obtain rfl := Option.some.inj heq
        exact hsegment
      · exact h.layout.page_segment id' p hold
    · intro i j p p' hne hp hp' hsame
      rcases update_eq_some hp with ⟨rfl, heq⟩ | ⟨-, hpold⟩
      · obtain rfl := Option.some.inj heq
        rcases update_eq_some hp' with ⟨hj, -⟩ | ⟨-, hpold'⟩
        · exact absurd hj.symm hne
        · exact (hapart hpold' hsame.symm).symm
      · rcases update_eq_some hp' with ⟨-, heq⟩ | ⟨-, hpold'⟩
        · obtain rfl := Option.some.inj heq
          exact hapart hpold hsame
        · exact h.layout.pages_apart i j p p' hne hpold hpold' hsame
  · intro a hmust
    cases hmust with
    | arena arena id' i harena hinit hi hclean hlo hhi =>
        exact h.zero a (.arena arena id' i harena hinit hi hclean hlo hhi)
    | slice other m s hother hflag hs hs' hslice hlo hhi =>
        exact h.zero a (.slice other m s hother hflag hs hs'
          (fun hpage => hslice (hold hpage)) hlo hhi)
    | uncarved p id' hp hflag hlo hhi =>
        rcases update_eq_some hp with ⟨-, heq⟩ | ⟨-, hpold⟩
        · obtain rfl := Option.some.inj heq
          have hstart : page.pageStart ≤ page.blockAt page.capacity :=
            Nat.le_add_right _ _
          exact hzero hflag a ((hok.start.trans hstart).trans hlo) hhi
        · exact h.zero a (.uncarved p id' hpold hflag hlo hhi)
    | free p id' block hp hflag hblock hlo hhi =>
        rcases update_eq_some hp with ⟨-, heq⟩ | ⟨-, hpold⟩
        · obtain rfl := Option.some.inj heq
          rw [hempty] at hblock
          exact absurd hblock List.not_mem_nil
        · exact h.zero a (.free p id' block hpold hflag hblock hlo hhi)

theorem ZeroOk.removePage (h : ZeroOk st) (hpage : st.pages id = some page)
    (hflag : ∀ seg, st.segments page.segment = some seg →
      seg.freeIsZero = false) :
    ZeroOk { st with pages := Function.update st.pages id none } := by
  have hold : ∀ {id' : ℕ} {p : ZeroPage},
      Function.update st.pages id none id' = some p →
      st.pages id' = some p := by
    intro id' p hp
    rcases update_eq_some hp with ⟨-, heq⟩ | ⟨-, hpold⟩
    · exact absurd heq (Option.some_ne_none p).symm
    · exact hpold
  constructor
  · constructor
    · exact h.layout.dirty
    · exact h.layout.arenas_apart
    · exact h.layout.info
    · exact h.layout.segments_apart
    · exact h.layout.memids_apart
    · exact h.layout.memid_arena
    · exact h.layout.place
    · exact fun id' p hp => h.layout.page id' p (hold hp)
    · exact fun id' p hp => h.layout.page_segment id' p (hold hp)
    · exact fun i j p p' hne hp hp' =>
        h.layout.pages_apart i j p p' hne (hold hp) (hold hp')
  · intro a hmust
    apply h.zero
    cases hmust with
    | arena arena id' i harena hinit hi hclean hlo hhi =>
        exact .arena arena id' i harena hinit hi hclean hlo hhi
    | slice other m s hother hset hs hs' hfree hlo hhi =>
        refine .slice other m s hother hset hs hs' ?_ hlo hhi
        rintro ⟨id', p, hp, hsegment, hrest⟩
        have hne : id' ≠ id := by
          rintro rfl
          obtain rfl := Option.some.inj (hp.symm.trans hpage)
          rw [hflag other (by rw [hsegment]; exact hother)] at hset
          exact absurd hset Bool.false_ne_true
        exact hfree ⟨id', p, (Function.update_of_ne hne _ _).trans hp,
          hsegment, hrest⟩
    | uncarved p id' hp hset hlo hhi =>
        exact .uncarved p id' (hold hp) hset hlo hhi
    | free p id' block hp hset hblock hlo hhi =>
        exact .free p id' block (hold hp) hset hblock hlo hhi

/-! ## Segments come and go -/

/-- A new segment apart from the others. -/
theorem ZeroOk.addSegment (h : ZeroOk st) (hnone : st.segments n = none)
    (hinfo : 0 < seg.infoSlices ∧ seg.infoSlices ≤ seg.slices)
    (hapart : ∀ k other, st.segments k = some other →
      seg.segmentEnd n ≤ pieceStart k ∨ other.segmentEnd k ≤ pieceStart n)
    (hmemids : ∀ k other id i count i' count', st.segments k = some other →
      seg.memid = some (id, i, count) →
      other.memid = some (id, i', count') →
      Disjoint (Finset.Ico i (i + count)) (Finset.Ico i' (i' + count')))
    (hmemid : ∀ id i count, seg.memid = some (id, i, count) →
      ∃ arena, st.arenas id = some arena)
    (hplace : ∀ id arena, st.arenas id = some arena →
      SegmentPlace arena id n seg)
    (hzero : seg.freeIsZero = true →
      AllBytes st.mem (pieceStart n) (seg.segmentEnd n) 0) :
    ZeroOk
      { st with
        segments := Function.update st.segments n (some seg) } := by
  constructor
  · constructor
    · exact h.layout.dirty
    · exact h.layout.arenas_apart
    · intro k other hother
      rcases update_eq_some hother with ⟨-, heq⟩ | ⟨-, hold⟩
      · obtain rfl := Option.some.inj heq
        exact hinfo
      · exact h.layout.info k other hold
    · intro k k' other other' hne hother hother'
      rcases update_eq_some hother with ⟨rfl, heq⟩ | ⟨-, hold⟩
      · obtain rfl := Option.some.inj heq
        rcases update_eq_some hother' with ⟨hk, -⟩ | ⟨-, hold'⟩
        · exact absurd hk.symm hne
        · exact hapart k' other' hold'
      · rcases update_eq_some hother' with ⟨rfl, heq⟩ | ⟨-, hold'⟩
        · obtain rfl := Option.some.inj heq
          exact (hapart k other hold).symm
        · exact h.layout.segments_apart k k' other other' hne hold hold'
    · intro k k' other other' id i count i' count' hne hother hother' hid hid'
      rcases update_eq_some hother with ⟨rfl, heq⟩ | ⟨-, hold⟩
      · obtain rfl := Option.some.inj heq
        rcases update_eq_some hother' with ⟨hk, -⟩ | ⟨-, hold'⟩
        · exact absurd hk.symm hne
        · exact hmemids k' other' id i count i' count' hold' hid hid'
      · rcases update_eq_some hother' with ⟨rfl, heq⟩ | ⟨-, hold'⟩
        · obtain rfl := Option.some.inj heq
          exact (hmemids k other id i' count' i count hold hid' hid).symm
        · exact h.layout.memids_apart k k' other other' id i count i' count'
            hne hold hold' hid hid'
    · intro k other id i count hother hid
      rcases update_eq_some hother with ⟨-, heq⟩ | ⟨-, hold⟩
      · obtain rfl := Option.some.inj heq
        exact hmemid id i count hid
      · exact h.layout.memid_arena k other id i count hold hid
    · intro id k arena other harena hother
      rcases update_eq_some hother with ⟨rfl, heq⟩ | ⟨-, hold⟩
      · obtain rfl := Option.some.inj heq
        exact hplace id arena harena
      · exact h.layout.place id k arena other harena hold
    · exact h.layout.page
    · intro id page hpage
      obtain ⟨other, hother, hrest⟩ := h.layout.page_segment id page hpage
      have hne : page.segment ≠ n := by
        rintro rfl
        exact absurd (hnone.symm.trans hother) (Option.some_ne_none other).symm
      exact ⟨other, (Function.update_of_ne hne _ _).trans hother, hrest⟩
    · exact h.layout.pages_apart
  · intro a hmust
    cases hmust with
    | arena arena id i harena hinit hi hclean hlo hhi =>
        exact h.zero a (.arena arena id i harena hinit hi hclean hlo hhi)
    | slice other m s hother hflag hs hs' hfree hlo hhi =>
        rcases update_eq_some hother with ⟨rfl, heq⟩ | ⟨-, hold⟩
        · obtain rfl := Option.some.inj heq
          have hstart : pieceStart m ≤ sliceAt m s := Nat.le_add_right _ _
          have hend : sliceAt m (s + 1) ≤ seg.segmentEnd m := sliceAt_mono hs'
          exact hzero hflag a (hstart.trans hlo) (hhi.trans_le hend)
        · exact h.zero a (.slice other m s hold hflag hs hs' hfree hlo hhi)
    | uncarved page id hpage hflag hlo hhi =>
        exact h.zero a (.uncarved page id hpage hflag hlo hhi)
    | free page id block hpage hflag hblock hlo hhi =>
        exact h.zero a (.free page id block hpage hflag hblock hlo hhi)

theorem ZeroOk.removeSegment (h : ZeroOk st)
    (hpages : ∀ id page, st.pages id = some page → page.segment ≠ n) :
    ZeroOk { st with segments := Function.update st.segments n none } := by
  have hold : ∀ {k : ℕ} {other : ZeroSegment},
      Function.update st.segments n none k = some other →
      st.segments k = some other := by
    intro k other hother
    rcases update_eq_some hother with ⟨-, heq⟩ | ⟨-, hkeep⟩
    · exact absurd heq (Option.some_ne_none other).symm
    · exact hkeep
  constructor
  · constructor
    · exact h.layout.dirty
    · exact h.layout.arenas_apart
    · exact fun k other hother => h.layout.info k other (hold hother)
    · exact fun k k' other other' hne hother hother' =>
        h.layout.segments_apart k k' other other' hne (hold hother)
          (hold hother')
    · exact fun k k' other other' id i count i' count' hne hother hother' =>
        h.layout.memids_apart k k' other other' id i count i' count' hne
          (hold hother) (hold hother')
    · exact fun k other id i count hother =>
        h.layout.memid_arena k other id i count (hold hother)
    · exact fun id k arena other harena hother =>
        h.layout.place id k arena other harena (hold hother)
    · exact h.layout.page
    · intro id page hpage
      obtain ⟨other, hother, hrest⟩ := h.layout.page_segment id page hpage
      have hne := hpages id page hpage
      exact ⟨other, (Function.update_of_ne hne _ _).trans hother, hrest⟩
    · exact h.layout.pages_apart
  · intro a hmust
    apply h.zero
    cases hmust with
    | arena arena id i harena hinit hi hclean hlo hhi =>
        exact .arena arena id i harena hinit hi hclean hlo hhi
    | slice other m s hother hflag hs hs' hfree hlo hhi =>
        exact .slice other m s (hold hother) hflag hs hs' hfree hlo hhi
    | uncarved page id hpage hflag hlo hhi =>
        exact .uncarved page id hpage hflag hlo hhi
    | free page id block hpage hflag hblock hlo hhi =>
        exact .free page id block hpage hflag hblock hlo hhi

/-! ## Arenas -/

structure ArenaKept (arena arena' : ZeroArena) : Prop where
  first : arena'.first = arena.first
  blockCount : arena'.blockCount = arena.blockCount
  zero : arena'.initiallyZero = arena.initiallyZero
  dirty : arena.dirty ⊆ arena'.dirty

theorem ArenaKept.exists_old (h : ArenaKept arena arena')
    (harena : arenas id = some arena) {k : ℕ} {other : ZeroArena}
    (hother : Function.update arenas id (some arena') k = some other) :
    ∃ old, arenas k = some old ∧ ArenaKept old other := by
  rcases update_eq_some hother with ⟨rfl, heq⟩ | ⟨-, hold⟩
  · obtain rfl := Option.some.inj heq
    exact ⟨arena, harena, h⟩
  · exact ⟨other, hold, rfl, rfl, rfl, Finset.Subset.refl _⟩

theorem ZeroOk.setArena (h : ZeroOk st) (harena : st.arenas id = some arena)
    (hkept : ArenaKept arena arena')
    (hdirty : arena'.initiallyZero = true → arena'.inuse ⊆ arena'.dirty)
    (hplace : ∀ n seg, st.segments n = some seg →
      SegmentPlace arena' id n seg) :
    ZeroOk
      { st with arenas := Function.update st.arenas id (some arena') } := by
  constructor
  · constructor
    · intro k other hother
      rcases update_eq_some hother with ⟨-, heq⟩ | ⟨-, hold⟩
      · obtain rfl := Option.some.inj heq
        exact hdirty
      · exact h.layout.dirty k other hold
    · intro k k' other other' hne hother hother'
      obtain ⟨old, hold, hsame⟩ := hkept.exists_old harena hother
      obtain ⟨old', hold', hsame'⟩ := hkept.exists_old harena hother'
      rw [hsame.first, hsame.blockCount, hsame'.first, hsame'.blockCount]
      exact h.layout.arenas_apart k k' old old' hne hold hold'
    · exact h.layout.info
    · exact h.layout.segments_apart
    · exact h.layout.memids_apart
    · intro n seg k i count hseg hmemid
      obtain ⟨old, hold⟩ := h.layout.memid_arena n seg k i count hseg hmemid
      by_cases hk : k = id
      · subst hk
        exact ⟨arena', Function.update_self _ _ _⟩
      · exact ⟨old, (Function.update_of_ne hk _ _).trans hold⟩
    · intro k n other seg hother hseg
      rcases update_eq_some hother with ⟨rfl, heq⟩ | ⟨-, hold⟩
      · obtain rfl := Option.some.inj heq
        exact hplace n seg hseg
      · exact h.layout.place k n other seg hold hseg
    · exact h.layout.page
    · exact h.layout.page_segment
    · exact h.layout.pages_apart
  · intro a hmust
    apply h.zero
    cases hmust with
    | arena other k i hother hinit hi hclean hlo hhi =>
        obtain ⟨old, hold, hsame⟩ := hkept.exists_old harena hother
        rw [hsame.zero] at hinit
        rw [hsame.blockCount] at hi
        rw [hsame.first] at hlo hhi
        exact .arena old k i hold hinit hi (fun hin => hclean (hsame.dirty hin))
          hlo hhi
    | slice seg n s hseg hflag hs hs' hfree hlo hhi =>
        exact .slice seg n s hseg hflag hs hs' hfree hlo hhi
    | uncarved page id hpage hflag hlo hhi =>
        exact .uncarved page id hpage hflag hlo hhi
    | free page id block hpage hflag hblock hlo hhi =>
        exact .free page id block hpage hflag hblock hlo hhi

end Palloc
