import Palloc.SpanOperations

/-!
# Coalescing, splitting and clearing

Freeing a page merges it with the free spans on both sides.  The neighbours
are found through entries that other operations wrote: the head of the next
span directly, the head of the previous one through the back offset in its
last entry.  The tiling says that both lookups find the right head.
-/

namespace Palloc

open LinkedQueue IntervalTiling

def usedCount (l : List (Tile SpanKind)) : ℕ :=
  l.countP fun tile => tile.kind = .used

@[simp] theorem usedCount_append (l l' : List (Tile SpanKind)) :
    usedCount (l ++ l') = usedCount l + usedCount l' :=
  List.countP_append

@[simp] theorem usedCount_nil : usedCount [] = 0 := rfl

@[simp] theorem usedCount_cons (tile : Tile SpanKind)
    (l : List (Tile SpanKind)) :
    usedCount (tile :: l) =
      usedCount l + if tile.kind = .used then 1 else 0 := by
  simp [usedCount, List.countP_cons]

theorem usedCount_pos {l : List (Tile SpanKind)} {tile : Tile SpanKind}
    (hmem : tile ∈ l) (hused : tile.kind = .used) : 0 < usedCount l :=
  List.countP_pos_iff.mpr ⟨tile, hmem, by simpa using hused⟩

/-- After the first part of coalescing: the detached range has `total`
slices, and no free span starts at its end. -/
structure NextDetached (st st' : State) (tid : ℕ) (owned : Set ℕ)
    (tiles : ℕ → List (Tile SpanKind)) (segment : ℕ)
    (before after : List (Tile SpanKind)) (start total : ℕ)
    (middle after' : List (Tile SpanKind)) (lists' : ℕ → List SlicePtr) :
    Prop where
  layout : SpanLayout st' tid owned
    (Function.update tiles segment (before ++ middle ++ after')) lists'
  detached : ∀ tile ∈ middle, tile.kind = .detached
  cover : Tiles start middle (start + total)
  used : usedCount after' = usedCount after
  kept : ∀ tile ∈ after', tile ∈ after
  apart : ∀ tile ∈ after', tile.kind = .free → tile.start ≠ start + total
  segments : st'.segments = st.segments

/-- After the second part: the detached range starts at `idx`, and no free
span ends there. -/
structure PrevDetached (st st' : State) (tid : ℕ) (owned : Set ℕ)
    (tiles : ℕ → List (Tile SpanKind)) (segment : ℕ)
    (before after : List (Tile SpanKind)) (idx total : ℕ)
    (before' middle' : List (Tile SpanKind))
    (lists' : ℕ → List SlicePtr) : Prop where
  layout : SpanLayout st' tid owned
    (Function.update tiles segment (before' ++ middle' ++ after)) lists'
  detached : ∀ tile ∈ middle', tile.kind = .detached
  cover : Tiles idx middle' (idx + total)
  used : usedCount before' = usedCount before
  kept : ∀ tile ∈ before', tile ∈ before
  apart : ∀ tile ∈ before', tile.kind = .free → tile.stop ≠ idx
  segments : st'.segments = st.segments

namespace SpanLayout

variable {st : State} {tid : ℕ} {owned : Set ℕ}
  {tiles : ℕ → List (Tile SpanKind)} {lists : ℕ → List SlicePtr}
  {segment : ℕ} {before middle after : List (Tile SpanKind)}

theorem threadId_ne (h : SpanLayout st tid owned tiles lists)
    (howned : segment ∈ owned) : (st.segments segment).threadId ≠ 0 := by
  rw [h.threadId segment howned]
  exact h.thread_ne

/-- Writes inside a detached range. -/
theorem touch {st' : State} (h : SpanLayout st tid owned tiles lists)
    (howned : segment ∈ owned)
    (htiles : tiles segment = before ++ middle ++ after)
    (hdetached : ∀ tile ∈ middle, tile.kind = .detached)
    (hheader : ∀ s ∈ owned, SameHeader (st.segments s) (st'.segments s))
    (hframe : ∀ slice : SlicePtr,
      (slice.segment = segment → ∀ inner ∈ middle,
        slice.idx < inner.start ∨ inner.stop ≤ slice.idx) →
      SameSpan (st.slices slice) (st'.slices slice))
    (hlinks : ∀ bin, ∀ slice ∈ lists bin,
      st'.links.next slice = st.links.next slice ∧
        st'.links.prev slice = st.links.prev slice)
    (hspans : st'.spans tid = st.spans tid) :
    SpanLayout st' tid owned tiles lists := by
  have hnotFree : ∀ inner ∈ middle, inner.kind ≠ .free := by
    intro inner hinner
    rw [hdetached inner hinner]
    decide
  have hentry : ∀ inner ∈ middle, SpanEntry st' segment inner := by
    intro inner hinner
    unfold SpanEntry
    rw [hdetached inner hinner]
    trivial
  have hinfo : ∀ inner ∈ middle, inner.kind = .used → inner.start = 0 →
      ∃ inner' ∈ middle, inner'.start = 0 ∧ inner'.kind = .used := by
    intro inner hinner hused hstart
    exact ⟨inner, hinner, hstart, hused⟩
  have hresult := h.rewrite_unqueued howned htiles hheader
    (fun _ _ hab => hab) hframe hentry hinfo hnotFree hnotFree hlinks hspans
  rw [← htiles, Function.update_eq_self] at hresult
  exact hresult

/-- The span after a detached range is detached as well when it is free. -/
theorem coalesceNext (h : SpanLayout st tid owned tiles lists)
    (howned : segment ∈ owned) {start count : ℕ}
    (htiles : tiles segment =
      before ++ [⟨start, count, .detached⟩] ++ after)
    (hkinds : ∀ tile ∈ after, tile.kind ≠ .detached) :
    let result := Palloc.coalesceNext st tid ⟨segment, start⟩ count
    count ≤ result.1 ∧ ∃ middle after' lists',
      NextDetached st result.2 tid owned tiles segment before after start
        result.1 middle after' lists' := by
  have hmid : (⟨start, count, .detached⟩ : Tile SpanKind) ∈
      tiles segment := by
    rw [htiles]
    simp
  have hcount := h.count_pos howned hmid
  have htiled := h.tiled segment howned
  rw [htiles, List.append_assoc, List.singleton_append] at htiled
  obtain ⟨-, -, hafter⟩ := htiled.split
  have hthread := h.threadId_ne howned
  -- no free span follows
  have hstay : (∀ tile ∈ after, tile.kind = .free →
      tile.start ≠ start + count) →
      NextDetached st st tid owned tiles segment before after start count
        [⟨start, count, .detached⟩] after lists := by
    intro hfree
    refine ⟨?_, by simp, ⟨rfl, hcount, rfl⟩, rfl, fun _ ht => ht, hfree,
      rfl⟩
    rw [← htiles, Function.update_eq_self]
    exact h
  cases after with
  | nil =>
      have hend : start + count = (st.segments segment).sliceEntries :=
        hafter
      have hout : ¬ start + count <
          (st.segments segment).sliceEntries := by omega
      have hresult : Palloc.coalesceNext st tid ⟨segment, start⟩ count =
          (count, st) := by
        simp [Palloc.coalesceNext, hout]
      rw [hresult]
      exact ⟨le_rfl, _, _, _, hstay (by simp)⟩
  | cons next later =>
      have hnext : next ∈ tiles segment := by
        rw [htiles]
        simp
      have hkind := hkinds next (by simp)
      have hstart : next.start = start + count := hafter.1
      have hstop := h.stop_le howned hnext
      have hpos := h.count_pos howned hnext
      have hfits : start + count < (st.segments segment).sliceEntries := by
        simp only [Tile.stop] at hstop
        omega
      have hfreeIff := h.head_free_iff howned hnext hkind
      rw [hstart] at hfreeIff
      by_cases hfree : next.kind = .free
      · have hzero := hfreeIff.mpr hfree
        have hheadCount := h.headCount howned hnext hkind
        rw [hstart] at hheadCount
        have hresult : Palloc.coalesceNext st tid ⟨segment, start⟩ count =
            (count + next.count,
              segmentSpanRemoveFromQueue st tid
                ⟨segment, start + count⟩) := by
          simp [Palloc.coalesceNext, hfits, hzero, hheadCount, hthread]
        have hsplit : tiles segment =
            (before ++ [⟨start, count, .detached⟩]) ++ [next] ++ later := by
          rw [htiles]
          simp
        have hremoved := h.remove howned hsplit hfree
        rw [hstart, List.append_assoc before, List.singleton_append]
          at hremoved
        rw [hresult]
        refine ⟨by simp, _, later, _, hremoved, ?_, ?_, ?_, ?_, ?_, ?_⟩
        · simp
        · refine ⟨rfl, hcount, rfl, hpos, ?_⟩
          simp only [Tile.stop, tiles_nil]
          omega
        · simp [hfree]
        · intro tile htile
          simp [htile]
        · intro tile htile hfree' heq
          have hmem : tile ∈ tiles segment := by
            rw [htiles]
            simp [htile]
          apply h.apart segment howned next hnext tile hmem hfree hfree'
          simp only [Tile.stop]
          omega
        · rfl
      · have hnonzero : (st.slices ⟨segment, start + count⟩).blockSize ≠
            0 := fun hzero => hfree (hfreeIff.mp hzero)
        have hresult : Palloc.coalesceNext st tid ⟨segment, start⟩ count =
            (count, st) := by
          simp [Palloc.coalesceNext, hnonzero]
        rw [hresult]
        refine ⟨le_rfl, _, _, _, hstay ?_⟩
        intro tile htile hfree' heq
        have hmem : tile ∈ tiles segment := by
          rw [htiles]
          simp only [List.mem_append]
          exact .inr htile
        have hsame := (h.tiled segment howned).eq_of_start hmem hnext
          (heq.trans hstart.symm)
        exact hfree (hsame ▸ hfree')

/-- The span before a detached range is detached as well when it is free. -/
theorem coalescePrev (h : SpanLayout st tid owned tiles lists)
    (howned : segment ∈ owned)
    (htiles : tiles segment = before ++ middle ++ after)
    (hdetached : ∀ tile ∈ middle, tile.kind = .detached)
    {start count : ℕ} (hcover : Tiles start middle (start + count))
    (hcount : 0 < count) (hkinds : ∀ tile ∈ before, tile.kind ≠ .detached) :
    let result := Palloc.coalescePrev st tid ⟨segment, start⟩ count
    result.1.segment = segment ∧
      result.1.idx + result.2.1 = start + count ∧ 0 < result.2.1 ∧
      ∃ before' middle' lists',
        PrevDetached st result.2.2 tid owned tiles segment before after
          result.1.idx result.2.1 before' middle' lists' := by
  have htiled := h.tiled segment howned
  rw [htiles] at htiled
  obtain ⟨hbefore, -⟩ := htiled.around hcover (by omega)
  have hthread := h.threadId_ne howned
  -- no free span comes before
  have hstay : (∀ tile ∈ before, tile.kind = .free → tile.stop ≠ start) →
      PrevDetached st st tid owned tiles segment before after start count
        before middle lists := by
    intro hfree
    refine ⟨?_, hdetached, hcover, rfl, fun _ ht => ht, hfree, rfl⟩
    rw [← htiles, Function.update_eq_self]
    exact h
  by_cases hfirst : start = 0
  · have hresult : Palloc.coalescePrev st tid ⟨segment, start⟩ count =
        (⟨segment, start⟩, count, st) := by
      simp [Palloc.coalescePrev, hfirst]
    rw [hresult]
    refine ⟨rfl, rfl, hcount, _, _, _, hstay ?_⟩
    intro tile htile _
    have hbounds := hbefore.bounds htile
    have hpos := hbounds.2.1
    simp only [Tile.stop]
    omega
  · cases before using List.reverseRecOn with
    | nil =>
        have heq : 0 = start := hbefore
        exact absurd heq.symm hfirst
    | append_singleton earlier prev _ =>
        obtain ⟨c, hearlier, hprevStart, hprevPos, hprevStop⟩ :=
          tiles_append.mp hbefore
        have hstop : prev.stop = start := hprevStop
        have hprev : prev ∈ tiles segment := by
          rw [htiles]
          simp
        have hkind := hkinds prev (by simp)
        have hlookup := (h.entry segment howned prev hprev).last hkind
          hprevPos
        rw [hstop] at hlookup
        have hfreeIff := h.head_free_iff howned hprev hkind
        have hne : (⟨segment, prev.start⟩ : SlicePtr) ≠
            ⟨segment, start⟩ := by
          intro heq
          simp only [SlicePtr.mk.injEq, true_and] at heq
          simp only [Tile.stop] at hstop
          omega
        by_cases hfree : prev.kind = .free
        · have hzero := hfreeIff.mpr hfree
          have hheadCount := h.headCount howned hprev hkind
          set st₁ := st.setSlice ⟨segment, start⟩
            ((st.slices ⟨segment, start⟩).withSpan 0 (start - prev.start)
              (st.slices ⟨segment, start⟩).blockSize) with hst₁
          have hresult : Palloc.coalescePrev st tid ⟨segment, start⟩ count =
              (⟨segment, prev.start⟩, count + prev.count,
                segmentSpanRemoveFromQueue st₁ tid
                  ⟨segment, prev.start⟩) := by
            simp [Palloc.coalescePrev, hfirst, hlookup, hzero, hheadCount,
              hthread, hst₁]
          have hframe : ∀ slice : SlicePtr,
              (slice.segment = segment → ∀ inner ∈ middle,
                slice.idx < inner.start ∨ inner.stop ≤ slice.idx) →
              SameSpan (st.slices slice) (st₁.slices slice) := by
            intro slice hout
            apply sameSpan_setSlice
            rintro rfl
            obtain ⟨inner, hinner, hlo, hhi⟩ :=
              hcover.exists_tile le_rfl (show start < start + count by omega)
            have hcase := hout rfl inner hinner
            simp only at hcase
            omega
          have htouch : SpanLayout st₁ tid owned tiles lists :=
            h.touch howned htiles hdetached (fun s _ => .refl _) hframe
              (fun _ _ _ => ⟨rfl, rfl⟩) rfl
          have hsplit : tiles segment =
              earlier ++ [prev] ++ (middle ++ after) := by
            rw [htiles]
            simp
          have hremoved := htouch.remove howned hsplit hfree
          rw [← List.append_assoc, List.append_assoc earlier,
            List.singleton_append] at hremoved
          rw [hresult]
          simp only [Tile.stop] at hstop
          refine ⟨rfl, by simp only; omega, by simp only; omega, earlier,
            _, _, hremoved, ?_, ?_, ?_, ?_, ?_, ?_⟩
          · intro tile htile
            rw [List.mem_cons] at htile
            rcases htile with rfl | htile
            · rfl
            · exact hdetached tile htile
          · refine ⟨rfl, hprevPos, ?_⟩
            simp only [Tile.stop]
            rw [hstop, show prev.start + (count + prev.count) =
              start + count by omega]
            exact hcover
          · simp [hfree]
          · intro tile htile
            simp [htile]
          · intro tile htile hfree'
            refine h.apart segment howned tile ?_ prev hprev hfree' hfree
            rw [htiles]
            simp [htile]
          · rfl
        · have hnonzero : (st.slices ⟨segment, prev.start⟩).blockSize ≠ 0 :=
            fun hzero => hfree (hfreeIff.mp hzero)
          have hresult : Palloc.coalescePrev st tid ⟨segment, start⟩ count =
              (⟨segment, start⟩, count, st) := by
            simp [Palloc.coalescePrev, hlookup, hnonzero]
          rw [hresult]
          refine ⟨rfl, rfl, hcount, _, _, _, hstay ?_⟩
          intro tile htile hfree' heq
          rw [List.mem_append, List.mem_singleton] at htile
          rcases htile with htile | rfl
          · have hbounds := hearlier.bounds htile
            simp only [Tile.stop] at hbounds heq hstop
            omega
          · exact hfree hfree'

theorem coalesceNext_os (st : State) (tid : ℕ) (slice : SlicePtr)
    (count : ℕ) : (Palloc.coalesceNext st tid slice count).2.os = st.os := by
  unfold Palloc.coalesceNext
  dsimp only
  split
  · split
    · rfl
    · rfl
  · rfl

theorem coalescePrev_os (st : State) (tid : ℕ) (slice : SlicePtr)
    (count : ℕ) :
    (Palloc.coalescePrev st tid slice count).2.2.os = st.os := by
  unfold Palloc.coalescePrev
  dsimp only
  split
  · rfl
  split
  · split
    · rfl
    · rfl
  · rfl

/-- Coalescing turns a detached range and its free neighbours into one free
span, which it frees as a whole. -/
theorem coalesce (h : SpanLayout st tid owned tiles lists)
    (howned : segment ∈ owned) {start count : ℕ}
    (htiles : tiles segment =
      before ++ [⟨start, count, .detached⟩] ++ after)
    (hkinds : ∀ tile, tile ∈ before ∨ tile ∈ after →
      tile.kind ≠ .detached)
    (hcount : (st.slices ⟨segment, start⟩).sliceCount = count)
    (cfg : Config) :
    ∃ before' idx total after' lists' st₁,
      let result := segmentSpanFreeCoalesce cfg st tid ⟨segment, start⟩
      SpanLayout result.2 tid owned
          (Function.update tiles segment
            (before' ++ [⟨idx, total, .free⟩] ++ after')) lists' ∧
        usedCount (before' ++ after') = usedCount (before ++ after) ∧
        (∀ tile, tile ∈ before' ∨ tile ∈ after' →
          tile ∈ before ∨ tile ∈ after) ∧
        OnlyCommit st result.2 ∧
        (st₁.segments = st.segments ∧ st₁.os = st.os) ∧
        result.2 = segmentSpanFree cfg st₁ tid segment idx total true := by
  have hkindSegment : (st.segments segment).kind ≠ .huge := by
    rw [h.kind segment howned]
    decide
  have hpos : 0 < count := by
    have hmem : (⟨start, count, .detached⟩ : Tile SpanKind) ∈
        tiles segment := by
      rw [htiles]
      simp
    exact h.count_pos howned hmem
  obtain ⟨hle, middle, after', lists₁, hnext⟩ := h.coalesceNext howned htiles
    fun tile htile => hkinds tile (.inr htile)
  rcases hnextEq : Palloc.coalesceNext st tid ⟨segment, start⟩ count with
    ⟨n, st₁⟩
  rw [hnextEq] at hle hnext
  obtain ⟨hseg, hend, hprevPos, before', middle', lists₂, hprev⟩ :=
    hnext.layout.coalescePrev howned (Function.update_self _ _ _)
      hnext.detached hnext.cover (by simp only at hle ⊢; omega)
      fun tile htile => hkinds tile (.inl htile)
  rcases hprevEq : Palloc.coalescePrev st₁ tid ⟨segment, start⟩ n with
    ⟨⟨s, idx⟩, total, st₂⟩
  simp only [hprevEq] at hle hseg hend hprevPos hprev hnext
  subst hseg
  have hos : st₂.os = st.os := by
    have hnextOs := coalesceNext_os st tid ⟨s, start⟩ count
    have hprevOs := coalescePrev_os st₁ tid ⟨s, start⟩ n
    rw [hnextEq] at hnextOs
    rw [hprevEq] at hprevOs
    exact hprevOs.trans hnextOs
  have hresult : segmentSpanFreeCoalesce cfg st tid ⟨s, start⟩ =
      (⟨s, idx⟩, segmentSpanFree cfg st₂ tid s idx total true) := by
    simp only [segmentSpanFreeCoalesce, if_neg hkindSegment, hcount,
      hnextEq, hprevEq]
  rw [hresult]
  have h₂ := hprev.layout
  rw [Function.update_idem] at h₂
  have htiled := h₂.tiled s howned
  rw [Function.update_self] at htiled
  obtain ⟨hbefore, hafter⟩ := htiled.around hprev.cover (by omega)
  have hneighbours : ∀ other, other ∈ before' ∨ other ∈ after' →
      other.kind = .free →
        other.stop ≠ idx ∧ other.start ≠ idx + total := by
    intro other hside hfree
    rcases hside with hb | ha
    · have hbounds := hbefore.bounds hb
      simp only [Tile.stop] at hbounds
      exact ⟨hprev.apart other hb hfree, by omega⟩
    · have hbounds := hafter.bounds ha
      rw [hend] at hbounds ⊢
      refine ⟨?_, hnext.apart other ha hfree⟩
      simp only [Tile.stop] at hbounds ⊢
      omega
  have hfree := h₂.free howned (Function.update_self _ _ _) hprev.detached
    hprev.cover hprevPos hneighbours cfg true
  rw [Function.update_idem] at hfree
  refine ⟨before', idx, total, after', _, st₂, hfree, ?_, ?_, ?_,
    ⟨hprev.segments.trans hnext.segments, hos⟩, rfl⟩
  · rw [usedCount_append, usedCount_append, hprev.used, hnext.used]
  · intro tile htile
    rcases htile with hb | ha
    · exact .inl (hprev.kept tile hb)
    · exact .inr (hnext.kept tile ha)
  · have hfreed := segmentSpanFree_spec cfg tid true (h₂.kind s howned)
      (h₂.threadId_ne howned) hprevPos hafter.le
    exact (OnlyCommit.of_eq (hprev.segments.trans hnext.segments)).trans
      hfreed.commit

theorem congr {st' : State} (h : SpanLayout st tid owned tiles lists)
    (hslices : ∀ slice, SameSpan (st.slices slice) (st'.slices slice))
    (hheader : ∀ s ∈ owned, SameHeader (st.segments s) (st'.segments s))
    (hlinks : st'.links = st.links) (hspans : st'.spans tid = st.spans tid) :
    SpanLayout st' tid owned tiles lists := by
  constructor
  · exact h.thread_ne
  · exact fun s hs => (hheader s hs).kind.trans (h.kind s hs)
  · exact fun s hs => (hheader s hs).threadId.trans (h.threadId s hs)
  · intro s hs
    rw [(hheader s hs).sliceEntries]
    exact h.tiled s hs
  · intro s hs tile htile
    exact (h.entry s hs tile htile).congr (h.count_pos hs htile)
      fun idx _ _ => hslices _
  · exact h.info
  · exact h.apart
  · rw [hlinks, hspans]
    exact h.queues
  · exact h.mem_queue

/-- Freeing the last slices of a detached range. -/
theorem freeTail (h : SpanLayout st tid owned tiles lists)
    (howned : segment ∈ owned) {start count k : ℕ}
    (htiles : tiles segment =
      before ++ [⟨start, count, .detached⟩] ++ after)
    (hpos : 0 < k) (hk : k < count)
    (hapart : ∀ tile ∈ after, tile.kind = .free →
      tile.start ≠ start + count)
    (cfg : Config) (allowPurge : Bool) :
    SpanLayout
      (segmentSpanFree cfg st tid segment (start + k) (count - k) allowPurge)
      tid owned
      (Function.update tiles segment (before ++ [⟨start, k, .detached⟩] ++
        ([⟨start + k, count - k, .free⟩] ++ after)))
      (Function.update lists (sliceBin (count - k))
        (⟨segment, start + k⟩ :: lists (sliceBin (count - k)))) := by
  set front : Tile SpanKind := ⟨start, k, .detached⟩ with hfront
  set back : Tile SpanKind := ⟨start + k, count - k, .detached⟩ with hback
  have hcut : ∀ a b, Tiles a [(⟨start, count, .detached⟩ : Tile SpanKind)] b →
      Tiles a [front, back] b := by
    rintro a b ⟨rfl, -, hend⟩
    refine ⟨rfl, hpos, rfl, by simp only [hback]; omega, ?_⟩
    simp only [Tile.stop, tiles_nil, hback] at hend ⊢
    omega
  have hregroup := h.regroup howned htiles hcut (by simp)
    (by simp [hfront, hback])
  have hsplit : Function.update tiles segment
      (before ++ [front, back] ++ after) segment =
        (before ++ [front]) ++ [back] ++ after := by
    rw [Function.update_self]
    simp
  have htiled := hregroup.tiled segment howned
  rw [hsplit] at htiled
  have hcover : Tiles (start + k) [back] (start + k + (count - k)) :=
    ⟨rfl, by simp only [hback]; omega, rfl⟩
  obtain ⟨hbefore, hafter⟩ := htiled.around hcover (by omega)
  have hneighbours : ∀ other, other ∈ before ++ [front] ∨ other ∈ after →
      other.kind = .free → other.stop ≠ start + k ∧
        other.start ≠ start + k + (count - k) := by
    intro other hside hfree
    rcases hside with hb | ha
    · have hbounds := hbefore.bounds hb
      simp only [List.mem_append, List.mem_singleton] at hb
      rcases hb with hb | rfl
      · have hbounds' := (tiles_append.mp hbefore)
        obtain ⟨mid, hfirst, hlast⟩ := hbounds'
        have hmid : mid = start := hlast.1.symm
        have hin := hfirst.bounds hb
        simp only [Tile.stop] at hin hbounds ⊢
        omega
      · cases hfree
    · have hbounds := hafter.bounds ha
      refine ⟨?_, ?_⟩
      · simp only [Tile.stop]
        omega
      · rw [show start + k + (count - k) = start + count by omega]
        exact hapart other ha hfree
  have hresult := hregroup.free howned hsplit (by simp [hback]) hcover
    (by omega) hneighbours cfg allowPurge
  rw [Function.update_idem, List.append_assoc (before ++ [front])]
    at hresult
  exact hresult

/-- Splitting a detached range: the rest becomes a free span. -/
theorem split (h : SpanLayout st tid owned tiles lists)
    (howned : segment ∈ owned) {start count k : ℕ}
    (htiles : tiles segment =
      before ++ [⟨start, count, .detached⟩] ++ after)
    (hcount : (st.slices ⟨segment, start⟩).sliceCount = count)
    (hpos : 0 < k) (hk : k < count)
    (hapart : ∀ tile ∈ after, tile.kind = .free →
      tile.start ≠ start + count)
    (cfg : Config) :
    let st' := segmentSliceSplit cfg st tid ⟨segment, start⟩ k
    SpanLayout st' tid owned
        (Function.update tiles segment (before ++ [⟨start, k, .detached⟩] ++
          ([⟨start + k, count - k, .free⟩] ++ after)))
        (Function.update lists (sliceBin (count - k))
          (⟨segment, start + k⟩ :: lists (sliceBin (count - k)))) ∧
      OnlyCommit st st' ∧
      (st'.slices ⟨segment, start⟩).sliceCount = k ∧
      (st'.slices ⟨segment, start⟩).sliceOffset =
        (st.slices ⟨segment, start⟩).sliceOffset ∧
      (st'.slices ⟨segment, start⟩).blockSize =
        (st.slices ⟨segment, start⟩).blockSize := by
  have hfits : start + k + (count - k) ≤
      (st.segments segment).sliceEntries := by
    have hmem : (⟨start, count, .detached⟩ : Tile SpanKind) ∈
        tiles segment := by
      rw [htiles]
      simp
    have hstop := h.stop_le howned hmem
    simp only [Tile.stop] at hstop
    omega
  have hfreed := segmentSpanFree_spec cfg tid false (h.kind segment howned)
    (h.threadId_ne howned) (show 0 < count - k by omega) hfits
  have htail := h.freeTail howned htiles hpos hk hapart cfg false
  set st₁ := segmentSpanFree cfg st tid segment (start + k) (count - k) false
    with hst₁
  have hhead : SameSpan (st.slices ⟨segment, start⟩)
      (st₁.slices ⟨segment, start⟩) := by
    apply hfreed.frame
    · intro heq
      simp only [SlicePtr.mk.injEq, true_and] at heq
      omega
    · intro heq
      simp only [SlicePtr.mk.injEq, true_and] at heq
      omega
  have hresult : segmentSliceSplit cfg st tid ⟨segment, start⟩ k =
      st₁.setSlice ⟨segment, start⟩
        ((st₁.slices ⟨segment, start⟩).withSpan k
          (st₁.slices ⟨segment, start⟩).sliceOffset
          (st₁.slices ⟨segment, start⟩).blockSize) := by
    have hnot : ¬ count ≤ k := by omega
    simp only [segmentSliceSplit, hcount, if_neg hnot]
    rfl
  rw [hresult]
  refine ⟨?_, hfreed.commit.trans (.of_eq rfl), ?_, ?_, ?_⟩
  · refine htail.touch howned (Function.update_self _ _ _) (by simp)
      (fun s _ => .refl _) ?_ (fun _ _ _ => ⟨rfl, rfl⟩) rfl
    intro slice hout
    apply sameSpan_setSlice
    rintro rfl
    have hcase := hout rfl _ (List.mem_singleton_self _)
    simp only [Tile.stop] at hcase
    omega
  · simp
  · rw [State.setSlice_self, PageFields.withSpan_sliceOffset]
    exact hhead.sliceOffset
  · rw [State.setSlice_self, PageFields.withSpan_blockSize]
    exact hhead.blockSize

end SpanLayout

end Palloc
