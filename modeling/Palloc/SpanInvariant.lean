import Palloc.SpanCoalesce
import Mathlib.Logic.Relation

/-!
# Runs of span operations

A run allocates, frees, splits and extends spans of the segments that a
thread owns, in any order and with any outcome of each commit.  Between
taking a span from its queue and turning it into a page, or giving it back,
the span is pending; everything else is a used or a free span at all times.
-/

namespace Palloc

open LinkedQueue IntervalTiling Relation

/-! ## The invariant -/

/-- The span that is out of the queues, if any: as it was taken, or already
split. -/
inductive Pending where
  | idle
  | taken (slice : SlicePtr)
  | cut (slice : SlicePtr)
  deriving DecidableEq

def Pending.slice : Pending → Option SlicePtr
  | .idle => none
  | .taken slice => some slice
  | .cut slice => some slice

/-- The slice structure with a pending span: the tiles of a segment count its
`used` field, the info span included, and the pending span is the only
detached range. -/
structure SpanInvariant (st : State) (pending : Pending) (tid : ℕ)
    (owned : Set ℕ) (tiles : ℕ → List (Tile SpanKind))
    (lists : ℕ → List SlicePtr) : Prop where
  layout : SpanLayout st tid owned tiles lists
  used : ∀ segment ∈ owned,
    (st.segments segment).used + 1 = usedCount (tiles segment)
  detached : ∀ segment ∈ owned, ∀ tile ∈ tiles segment,
    tile.kind = .detached → pending.slice = some ⟨segment, tile.start⟩
  recorded : ∀ slice, pending.slice = some slice →
    slice.segment ∈ owned ∧ (st.slices slice).sliceOffset = 0 ∧
      0 < (st.slices slice).blockSize ∧
      ⟨slice.idx, (st.slices slice).sliceCount, .detached⟩ ∈
        tiles slice.segment
  taken : ∀ slice, pending = .taken slice →
    ∀ tile ∈ tiles slice.segment, tile.kind = .free →
      tile.start ≠ slice.idx + (st.slices slice).sliceCount

def UsedKept (tiles tiles' : ℕ → List (Tile SpanKind)) : Prop :=
  ∀ segment, ∀ tile ∈ tiles' segment, tile.kind = .used →
    tile ∈ tiles segment

theorem UsedKept.refl (tiles : ℕ → List (Tile SpanKind)) :
    UsedKept tiles tiles :=
  fun _ _ htile _ => htile

theorem UsedKept.trans {tiles tiles' tiles'' : ℕ → List (Tile SpanKind)}
    (h : UsedKept tiles tiles') (h' : UsedKept tiles' tiles'') :
    UsedKept tiles tiles'' :=
  fun segment tile htile hused =>
    h segment tile (h' segment tile htile hused) hused

theorem usedKept_update {tiles : ℕ → List (Tile SpanKind)} {segment : ℕ}
    {new : List (Tile SpanKind)}
    (hnew : ∀ tile ∈ new, tile.kind = .used → tile ∈ tiles segment) :
    UsedKept tiles (Function.update tiles segment new) := by
  intro s tile htile hused
  by_cases hs : s = segment
  · subst hs
    rw [Function.update_self] at htile
    exact hnew tile htile hused
  · rw [Function.update_of_ne hs] at htile
    exact htile

inductive SpanHead (st : State) (segment : ℕ) : ℕ → Prop where
  | first : SpanHead st segment 0
  | next {idx : ℕ} (hhead : SpanHead st segment idx)
      (hlt : idx + (st.slices ⟨segment, idx⟩).sliceCount <
        (st.segments segment).sliceEntries) :
      SpanHead st segment (idx + (st.slices ⟨segment, idx⟩).sliceCount)

def UsedHead (st : State) (slice : SlicePtr) : Prop :=
  SpanHead st slice.segment slice.idx ∧ 0 < (st.slices slice).blockSize

def FreeHead (st : State) (slice : SlicePtr) : Prop :=
  SpanHead st slice.segment slice.idx ∧ (st.slices slice).blockSize = 0

namespace SpanInvariant

variable {st st' : State} {pending : Pending} {tid : ℕ} {owned : Set ℕ}
  {tiles : ℕ → List (Tile SpanKind)} {lists lists' : ℕ → List SlicePtr}
  {segment : ℕ} {before after : List (Tile SpanKind)}

/-- Every tile has a head with its count. -/
theorem head (h : SpanInvariant st pending tid owned tiles lists)
    (howned : segment ∈ owned) {tile : Tile SpanKind}
    (htile : tile ∈ tiles segment) :
    (st.slices ⟨segment, tile.start⟩).sliceCount = tile.count ∧
      (st.slices ⟨segment, tile.start⟩).sliceOffset = 0 ∧
      ((st.slices ⟨segment, tile.start⟩).blockSize = 0 ↔
        tile.kind = .free) := by
  by_cases hkind : tile.kind = .detached
  · have hpending := h.detached segment howned tile htile hkind
    obtain ⟨-, hoffset, hbsize, hmem⟩ := h.recorded _ hpending
    have hsame := (h.layout.tiled segment howned).eq_of_start hmem htile rfl
    refine ⟨?_, hoffset, ?_⟩
    · rw [← hsame]
    · rw [hkind]
      simp only [reduceCtorEq, iff_false]
      omega
  · exact (h.layout.entry segment howned tile htile).head hkind

theorem spanHead_iff (h : SpanInvariant st pending tid owned tiles lists)
    (howned : segment ∈ owned) (idx : ℕ) :
    SpanHead st segment idx ↔ ∃ tile ∈ tiles segment, tile.start = idx := by
  have htiled := h.layout.tiled segment howned
  constructor
  · intro hhead
    induction hhead with
    | first =>
        obtain ⟨tile, htile, hstart, -⟩ := h.layout.info segment howned
        exact ⟨tile, htile, hstart⟩
    | next _ hlt ih =>
        obtain ⟨tile, htile, rfl⟩ := ih
        rw [(h.head howned htile).1] at hlt ⊢
        obtain ⟨before, after, hsplit⟩ := List.append_of_mem htile
        rw [hsplit] at htiled
        obtain ⟨succ, later, hafter, hstart⟩ := htiled.exists_succ hlt
        refine ⟨succ, ?_, hstart⟩
        rw [hsplit, hafter]
        simp
  · rintro ⟨tile, htile, rfl⟩
    obtain ⟨before, after, hsplit⟩ := List.append_of_mem htile
    induction before using List.reverseRecOn generalizing tile after with
    | nil =>
        rw [hsplit] at htiled
        have hstart : tile.start = 0 := htiled.1
        rw [hstart]
        exact .first
    | append_singleton earlier prev ih =>
        have hprev : prev ∈ tiles segment := by
          rw [hsplit]
          simp
        have hrest : tiles segment = earlier ++ prev :: (tile :: after) := by
          rw [hsplit]
          simp
        have hhead := ih prev hprev (tile :: after) hrest
        have hcount := (h.head howned hprev).1
        have hbounds := htiled.bounds htile
        rw [hrest] at htiled
        have hstart : tile.start = prev.stop := htiled.split.2.2.1
        have hnext := hhead.next (by
          rw [hcount]
          simp only [Tile.stop] at hstart hbounds
          omega)
        rw [hcount] at hnext
        rw [hstart]
        exact hnext

/-- The slice before a span leads to the head of the span before it. -/
theorem sliceFirst_prev (h : SpanInvariant st .idle tid owned tiles lists)
    (howned : segment ∈ owned) {tile : Tile SpanKind}
    (hsplit : tiles segment = before ++ tile :: after)
    (hpos : 0 < tile.start) :
    ∃ earlier prev, before = earlier ++ [prev] ∧
      st.sliceFirst ⟨segment, tile.start - 1⟩ = ⟨segment, prev.start⟩ := by
  have htiled := h.layout.tiled segment howned
  rw [hsplit] at htiled
  obtain ⟨earlier, prev, hbefore, hstop⟩ := htiled.exists_pred hpos
  have hprev : prev ∈ tiles segment := by
    rw [hsplit, hbefore]
    simp
  refine ⟨earlier, prev, hbefore, ?_⟩
  rw [← hstop]
  refine (h.layout.entry segment howned prev hprev).last ?_
    (h.layout.count_pos howned hprev)
  intro hkind
  have hnone := h.detached segment howned prev hprev hkind
  cases hnone

/-- The spans are the tiles, and no span is pending. -/
theorem usedHead_tile (h : SpanInvariant st .idle tid owned tiles lists)
    {slice : SlicePtr} (howned : slice.segment ∈ owned)
    (hhead : UsedHead st slice) :
    ∃ before after count,
      tiles slice.segment = before ++ [⟨slice.idx, count, .used⟩] ++ after ∧
        (st.slices slice).sliceCount = count := by
  obtain ⟨tile, htile, hstart⟩ := (h.spanHead_iff howned _).mp hhead.1
  obtain ⟨hcount, -, hfree⟩ := h.head howned htile
  obtain ⟨before, after, hsplit⟩ := List.append_of_mem htile
  rw [hstart] at hcount hfree
  have hused : tile.kind = .used := by
    cases hkind : tile.kind with
    | used => rfl
    | free =>
        have hzero := hfree.mpr hkind
        have hpos := hhead.2
        change (st.slices slice).blockSize = 0 at hzero
        omega
    | detached =>
        have hnone := h.detached _ howned tile htile hkind
        cases hnone
  refine ⟨before, after, tile.count, ?_, hcount⟩
  rw [hsplit, List.append_assoc, List.singleton_append, ← hstart, ← hused]

theorem freeHead_tile (h : SpanInvariant st pending tid owned tiles lists)
    {slice : SlicePtr} (howned : slice.segment ∈ owned)
    (hhead : FreeHead st slice) :
    ∃ before after count,
      tiles slice.segment = before ++ [⟨slice.idx, count, .free⟩] ++ after ∧
        (st.slices slice).sliceCount = count := by
  obtain ⟨tile, htile, hstart⟩ := (h.spanHead_iff howned _).mp hhead.1
  obtain ⟨hcount, -, hfree⟩ := h.head howned htile
  obtain ⟨before, after, hsplit⟩ := List.append_of_mem htile
  rw [hstart] at hcount hfree
  refine ⟨before, after, tile.count, ?_, hcount⟩
  rw [hsplit, List.append_assoc, List.singleton_append, ← hstart,
    ← hfree.mp hhead.2]

/-! ## Rewriting the tiles of one segment -/

/-- After a step that leaves nothing pending. -/
theorem toIdle (h : SpanInvariant st pending tid owned tiles lists)
    {new : List (Tile SpanKind)}
    (hlayout : SpanLayout st' tid owned
      (Function.update tiles segment new) lists')
    (hsame : ∀ slice, pending.slice = some slice → slice.segment = segment)
    (hkinds : ∀ tile ∈ new, tile.kind ≠ .detached)
    (hused : segment ∈ owned →
      (st'.segments segment).used + 1 = usedCount new)
    (hother : ∀ s, s ≠ segment →
      (st'.segments s).used = (st.segments s).used) :
    SpanInvariant st' .idle tid owned (Function.update tiles segment new)
      lists' := by
  refine ⟨hlayout, ?_, ?_, ?_, ?_⟩
  · intro s hs
    by_cases hcase : s = segment
    · subst hcase
      rw [Function.update_self]
      exact hused hs
    · rw [Function.update_of_ne hcase, hother s hcase]
      exact h.used s hs
  · intro s hs tile htile hkind
    by_cases hcase : s = segment
    · subst hcase
      rw [Function.update_self] at htile
      exact absurd hkind (hkinds tile htile)
    · rw [Function.update_of_ne hcase] at htile
      exact absurd (hsame _ (h.detached s hs tile htile hkind)) hcase
  · intro slice hslice
    cases hslice
  · intro slice hslice
    cases hslice

/-- After a step that leaves a span of the segment pending. -/
theorem toPending (h : SpanInvariant st pending tid owned tiles lists)
    {pending' : Pending} {start count : ℕ} (howned : segment ∈ owned)
    (hlayout : SpanLayout st' tid owned
      (Function.update tiles segment
        (before ++ [⟨start, count, .detached⟩] ++ after)) lists')
    (hslice : pending'.slice = some ⟨segment, start⟩)
    (hsame : ∀ slice, pending.slice = some slice → slice.segment = segment)
    (hkinds : ∀ tile, tile ∈ before ∨ tile ∈ after →
      tile.kind ≠ .detached)
    (hused : (st.segments segment).used + 1 = usedCount (before ++ after))
    (hother : ∀ s, (st'.segments s).used = (st.segments s).used)
    (hcount : (st'.slices ⟨segment, start⟩).sliceCount = count)
    (hoffset : (st'.slices ⟨segment, start⟩).sliceOffset = 0)
    (hbsize : 0 < (st'.slices ⟨segment, start⟩).blockSize)
    (htaken : ∀ slice, pending' = .taken slice →
      ∀ tile ∈ after, tile.kind = .free → tile.start ≠ start + count) :
    SpanInvariant st' pending' tid owned
      (Function.update tiles segment
        (before ++ [⟨start, count, .detached⟩] ++ after)) lists' := by
  refine ⟨hlayout, ?_, ?_, ?_, ?_⟩
  · intro s hs
    rw [hother]
    by_cases hcase : s = segment
    · subst hcase
      rw [Function.update_self]
      simp only [usedCount_append, usedCount_cons, usedCount_nil] at hused ⊢
      simpa using hused
    · rw [Function.update_of_ne hcase]
      exact h.used s hs
  · intro s hs tile htile hkind
    by_cases hcase : s = segment
    · subst hcase
      rw [Function.update_self, List.mem_append, List.mem_append,
        List.mem_singleton] at htile
      rcases htile with (hb | rfl) | ha
      · exact absurd hkind (hkinds tile (.inl hb))
      · exact hslice
      · exact absurd hkind (hkinds tile (.inr ha))
    · rw [Function.update_of_ne hcase] at htile
      exact absurd (hsame _ (h.detached s hs tile htile hkind)) hcase
  · intro slice hpending
    rw [hslice, Option.some.injEq] at hpending
    subst hpending
    refine ⟨howned, hoffset, hbsize, ?_⟩
    rw [Function.update_self, hcount]
    simp
  · intro slice hpending tile htile hfree
    have heq : slice = ⟨segment, start⟩ := by
      subst hpending
      exact Option.some.inj hslice
    subst heq
    simp only [hcount]
    simp only [Function.update_self, List.mem_append,
      List.mem_singleton] at htile
    rcases htile with (hb | rfl) | ha
    · have htiled := hlayout.tiled segment howned
      rw [Function.update_self] at htiled
      have hcover : Tiles start [(⟨start, count, .detached⟩ :
          Tile SpanKind)] (start + count) := by
        have hmid : (⟨start, count, .detached⟩ : Tile SpanKind) ∈
            before ++ [⟨start, count, .detached⟩] ++ after := by simp
        exact ⟨rfl, (htiled.bounds hmid).2.1, rfl⟩
      obtain ⟨hbefore, -⟩ := htiled.around hcover (by
        have hpos := hcover.2.1
        simp only at hpos
        omega)
      have hbounds := hbefore.bounds hb
      simp only [Tile.stop] at hbounds
      omega
    · cases hfree
    · exact htaken _ hpending tile ha hfree

/-- A step that keeps the entries, the queues and `used`. -/
theorem congr (h : SpanInvariant st pending tid owned tiles lists)
    (hslices : st'.slices = st.slices)
    (hheader : ∀ s ∈ owned, SameHeader (st.segments s) (st'.segments s))
    (hlinks : st'.links = st.links) (hspans : st'.spans = st.spans)
    (hused : ∀ s ∈ owned, (st'.segments s).used = (st.segments s).used) :
    SpanInvariant st' pending tid owned tiles lists := by
  refine ⟨h.layout.congr ?_ hheader hlinks (by rw [hspans]), ?_,
    h.detached, ?_, ?_⟩
  · intro slice
    rw [hslices]
    exact .refl _
  · intro s hs
    rw [hused s hs]
    exact h.used s hs
  · rw [hslices]
    exact h.recorded
  · rw [hslices]
    exact h.taken

theorem not_detached (h : SpanInvariant st .idle tid owned tiles lists)
    (howned : segment ∈ owned) {tile : Tile SpanKind}
    (htile : tile ∈ tiles segment) : tile.kind ≠ .detached := by
  intro hkind
  have hnone := h.detached segment howned tile htile hkind
  cases hnone

/-- The pending span is the only detached tile. -/
theorem pending_tile (h : SpanInvariant st pending tid owned tiles lists)
    {slice : SlicePtr} (hpending : pending.slice = some slice) :
    ∃ before after,
      tiles slice.segment = before ++
        [⟨slice.idx, (st.slices slice).sliceCount, .detached⟩] ++ after ∧
      ∀ tile, tile ∈ before ∨ tile ∈ after → tile.kind ≠ .detached := by
  obtain ⟨howned, -, -, hmem⟩ := h.recorded slice hpending
  obtain ⟨before, after, hsplit⟩ := List.append_of_mem hmem
  rw [← List.singleton_append, ← List.append_assoc] at hsplit
  refine ⟨before, after, hsplit, ?_⟩
  intro tile htile hkind
  have hmem' : tile ∈ tiles slice.segment := by
    rw [hsplit]
    simp only [List.mem_append]
    tauto
  have hhead := h.detached _ howned tile hmem' hkind
  rw [hpending, Option.some.injEq] at hhead
  have hne := h.layout.start_ne howned hsplit (List.mem_singleton_self _)
    htile
  apply hne
  rw [hhead]

/-! ## The operations -/

theorem take (h : SpanInvariant st .idle tid owned tiles lists)
    {slice : SlicePtr} (howned : slice.segment ∈ owned)
    (hhead : FreeHead st slice) :
    ∃ tiles' lists', SpanInvariant (segmentSpanRemoveFromQueue st tid slice)
      (.taken slice) tid owned tiles' lists' ∧ UsedKept tiles tiles' := by
  obtain ⟨before, after, count, hsplit, hcount⟩ :=
    h.freeHead_tile howned hhead
  have hfree : (⟨slice.idx, count, .free⟩ : Tile SpanKind) ∈
      tiles slice.segment := by
    rw [hsplit]
    simp
  have hremoved := h.layout.remove howned hsplit rfl
  obtain ⟨hcount', hoffset', hbsize'⟩ := spanQueueDelete_head st tid
    (sliceBin (st.slices slice).sliceCount) slice
  refine ⟨_, _, h.toPending howned hremoved rfl ?_ ?_ ?_ ?_ ?_ ?_ ?_ ?_,
    usedKept_update ?_⟩
  · intro other hother
    cases hother
  · intro tile htile
    apply h.not_detached howned
    rw [hsplit]
    simp only [List.mem_append]
    tauto
  · have hused := h.used _ howned
    rw [hsplit] at hused
    simpa using hused
  · intro s
    rfl
  · exact hcount'.trans hcount
  · exact hoffset'.trans (h.head howned hfree).2.1
  · rw [segmentSpanRemoveFromQueue, hbsize']
    exact Nat.one_pos
  · intro other _ tile htile hkind heq
    apply h.layout.apart _ howned _ hfree tile _ rfl hkind heq.symm
    rw [hsplit]
    simp [htile]
  · intro tile htile hused
    rw [hsplit]
    simp only [List.mem_append, List.mem_singleton] at htile ⊢
    rcases htile with (hb | rfl) | ha
    · exact .inl (.inl hb)
    · cases hused
    · exact .inr ha

theorem split {slice : SlicePtr}
    (h : SpanInvariant st (.taken slice) tid owned tiles lists)
    (cfg : Config) {k : ℕ} (hpos : 0 < k) :
    ∃ tiles' lists', SpanInvariant (segmentSliceSplit cfg st tid slice k)
      (.cut slice) tid owned tiles' lists' ∧ UsedKept tiles tiles' := by
  obtain ⟨howned, hoffset, hbsize, -⟩ := h.recorded slice rfl
  obtain ⟨before, after, hsplit, hkinds⟩ := h.pending_tile rfl
  by_cases hk : (st.slices slice).sliceCount ≤ k
  · have hresult : segmentSliceSplit cfg st tid slice k = st := by
      simp [segmentSliceSplit, hk]
    rw [hresult]
    refine ⟨tiles, lists, ⟨h.layout, h.used, h.detached, h.recorded, ?_⟩,
      .refl tiles⟩
    intro other hother
    cases hother
  · have hapart : ∀ tile ∈ after, tile.kind = .free →
        tile.start ≠ slice.idx + (st.slices slice).sliceCount := by
      intro tile htile hfree
      apply h.taken slice rfl tile _ hfree
      rw [hsplit]
      simp [htile]
    obtain ⟨hlayout, hcommit, hcount', hoffset', hbsize'⟩ :=
      h.layout.split howned hsplit rfl hpos (by omega) hapart cfg
    refine ⟨_, _, h.toPending howned hlayout rfl ?_ ?_ ?_ hcommit.used
      hcount' ?_ ?_ ?_, usedKept_update ?_⟩
    · intro other hother
      cases hother
      rfl
    · intro tile htile
      rw [List.mem_append, List.mem_singleton] at htile
      rcases htile with hb | rfl | ha
      · exact hkinds tile (.inl hb)
      · simp
      · exact hkinds tile (.inr ha)
    · have hused := h.used _ howned
      rw [hsplit] at hused
      simpa using hused
    · exact hoffset'.trans hoffset
    · exact hbsize'.symm ▸ hbsize
    · intro other hother
      cases hother
    · intro tile htile hused
      rw [hsplit]
      simp only [List.mem_append, List.mem_singleton] at htile ⊢
      rcases htile with (hb | rfl) | (rfl | ha)
      · exact .inl (.inl hb)
      · cases hused
      · cases hused
      · exact .inr ha

/-- Turning the pending span into a page, when the commit succeeds. -/
theorem allocate (h : SpanInvariant st pending tid owned tiles lists)
    {slice : SlicePtr} (hpending : pending.slice = some slice)
    {cfg : Config} {ok : Bool}
    (hresult : segmentSpanAllocate cfg st slice.segment slice.idx
      (st.slices slice).sliceCount = (ok, st')) :
    ∃ tiles', SpanInvariant st' (if ok then .idle else pending) tid owned
        tiles' lists ∧
      ∀ segment, ∀ tile ∈ tiles' segment, tile.kind = .used →
        tile ∈ tiles segment ∨ ok = true ∧ segment = slice.segment ∧
          tile = ⟨slice.idx, (st.slices slice).sliceCount, .used⟩ := by
  obtain ⟨howned, -, -, -⟩ := h.recorded slice hpending
  obtain ⟨before, after, hsplit, hkinds⟩ := h.pending_tile hpending
  obtain ⟨commit, zero, hcases⟩ := segmentSpanAllocate_cases cfg st
    slice.segment slice.idx (st.slices slice).sliceCount
  rw [hresult] at hcases
  set st₁ := st.setCommit slice.segment commit with hst₁
  have hcommit : OnlyCommit st st₁ := onlyCommit_setCommit _ _ _
  have h₁ : SpanInvariant st₁ pending tid owned tiles lists :=
    h.congr rfl (fun s _ => hcommit.header s) rfl rfl
      fun s _ => hcommit.used s
  rcases hcases with hfailed | hdone
  · simp only [Prod.mk.injEq] at hfailed
    obtain ⟨rfl, rfl⟩ := hfailed
    exact ⟨tiles, by simpa using h₁, fun _ _ htile _ => .inl htile⟩
  · simp only [Prod.mk.injEq] at hdone
    obtain ⟨rfl, rfl⟩ := hdone
    have hlayout := h₁.layout.setUsed howned hsplit zero
    set st₂ := st₁.setUsedSpan slice.segment slice.idx
      (st.slices slice).sliceCount zero with hst₂
    have hsegments : st₂.segments = st₁.segments := by
      have hmem : (⟨slice.idx, (st.slices slice).sliceCount, .detached⟩ :
          Tile SpanKind) ∈ tiles slice.segment := by
        rw [hsplit]
        simp
      exact (setUsedSpan_spec zero (h₁.layout.count_pos howned hmem)
        (h₁.layout.stop_le howned hmem)).2.1
    refine ⟨_, h.toIdle (hlayout.congr (fun slice => .refl _) ?_ rfl rfl)
      ?_ ?_ ?_ ?_, ?_⟩
    · intro s _
      by_cases hs : s = slice.segment
      · subst hs
        rw [State.setSegment_self]
        exact ⟨rfl, rfl, rfl⟩
      · rw [State.setSegment_ne _ _ hs]
        exact .refl _
    · intro other hother
      rw [hpending, Option.some.injEq] at hother
      rw [hother]
    · intro tile htile
      simp only [List.mem_append, List.mem_singleton] at htile
      rcases htile with (hb | rfl) | ha
      · exact hkinds tile (.inl hb)
      · simp
      · exact hkinds tile (.inr ha)
    · intro _
      have hused := h₁.used _ howned
      rw [hsplit] at hused
      rw [State.setSegment_self, hsegments, SegmentInfo.withUsed_used]
      simp only [usedCount_append, usedCount_cons, usedCount_nil] at hused ⊢
      simp only [reduceCtorEq, if_false, if_true] at hused ⊢
      omega
    · intro s hs
      rw [State.setSegment_ne _ _ hs, hsegments]
      exact hcommit.used s
    · intro s tile htile hused
      by_cases hs : s = slice.segment
      · subst hs
        rw [Function.update_self] at htile
        rw [hsplit]
        simp only [List.mem_append, List.mem_singleton] at htile ⊢
        rcases htile with (hb | htile) | ha
        · exact .inl (.inl (.inl hb))
        · exact .inr ⟨trivial, trivial, htile⟩
        · exact .inl (.inr ha)
      · rw [Function.update_of_ne hs] at htile
        exact .inl htile

/-- Giving the pending span back. -/
theorem giveBack (h : SpanInvariant st pending tid owned tiles lists)
    {slice : SlicePtr} (hpending : pending.slice = some slice)
    (cfg : Config) :
    OnlyCommit st (segmentSpanFreeCoalesce cfg st tid slice).2 ∧
    ∃ tiles' lists',
      SpanInvariant (segmentSpanFreeCoalesce cfg st tid slice).2 .idle tid
        owned tiles' lists' ∧
      UsedKept tiles tiles' ∧
      ∃ idx total st₁,
        ⟨idx, total, .free⟩ ∈ tiles' slice.segment ∧
        (st₁.segments = st.segments ∧ st₁.os = st.os) ∧
        (segmentSpanFreeCoalesce cfg st tid slice).2 =
          segmentSpanFree cfg st₁ tid slice.segment idx total true := by
  obtain ⟨howned, -, -, -⟩ := h.recorded slice hpending
  obtain ⟨before, after, hsplit, hkinds⟩ := h.pending_tile hpending
  obtain ⟨before', idx, total, after', lists', st₁, hlayout, hused, hkept,
    hcommit, hsegments, hfree⟩ :=
      h.layout.coalesce howned hsplit hkinds rfl cfg
  refine ⟨hcommit, _, _, h.toIdle hlayout ?_ ?_ ?_ ?_, usedKept_update ?_,
    idx, total, st₁, ?_, hsegments, hfree⟩
  · intro other hother
    rw [hpending, Option.some.injEq] at hother
    rw [hother]
  · intro tile htile
    simp only [List.mem_append, List.mem_singleton] at htile
    rcases htile with (hb | rfl) | ha
    · exact hkinds tile (hkept tile (.inl hb))
    · simp
    · exact hkinds tile (hkept tile (.inr ha))
  · intro _
    have hcount := h.used _ howned
    rw [hsplit] at hcount
    rw [hcommit.used]
    simp only [usedCount_append, usedCount_cons, usedCount_nil, reduceCtorEq,
      if_false] at hcount hused ⊢
    omega
  · intro s _
    exact hcommit.used s
  · intro tile htile hkind
    rw [hsplit]
    simp only [List.mem_append, List.mem_singleton] at htile ⊢
    rcases htile with (hb | rfl) | ha
    · exact (hkept tile (.inl hb)).imp_left .inl
    · cases hkind
    · exact (hkept tile (.inr ha)).imp_left .inl
  · rw [Function.update_self]
    simp

end SpanInvariant

end Palloc
