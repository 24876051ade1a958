import Palloc.PageQueueSteps
import Palloc.ReclaimSpans

/-!
# Taking a segment over

`pa_segment_reclaim` goes through an abandoned segment once.  A page that
still has live blocks goes to the heap of its tag and to the queue of its
bin; every other span becomes a free span of the thread.  A segment without
any live block is freed instead.
-/

namespace Palloc

open IndexWalk LinkedQueue IntervalTiling

/-! ## Pages -/

theorem PagePartition.reclaimed {page : PageFields}
    {live free localFree thread : List Addr}
    (h : PagePartition page live free localFree thread) (hp : ReclaimHeaps)
    (heap : ℕ) :
    PagePartition (page.reclaimed hp heap) live free localFree thread :=
  { free_chain := h.free_chain
    local_chain := h.local_chain
    thread_chain := h.thread_chain
    blocks := h.blocks
    used_eq := h.used_eq
    capacity_le := h.capacity_le
    reserved_lt := h.reserved_lt
    blockSize_pos := h.blockSize_pos }

theorem pageThreadFreeCollect_xheap (page : PageFields) :
    (pageThreadFreeCollect page).xheap = page.xheap := by
  unfold pageThreadFreeCollect
  cases page.xthreadFree.block with
  | none => rfl
  | some head =>
      dsimp only
      split <;> rfl

theorem pageFreeCollect_xheap {page page' : PageFields} {force : Bool}
    (h : pageFreeCollect page force = some page') :
    page'.xheap = page.xheap := by
  have hfirst : ∃ p : PageFields,
      (if force ∨ page.xthreadFree.block ≠ none then
        pageThreadFreeCollect page else page) = p ∧
        p.xheap = page.xheap := by
    split
    · exact ⟨_, rfl, pageThreadFreeCollect_xheap page⟩
    · exact ⟨_, rfl, rfl⟩
  obtain ⟨p, hp, hheap⟩ := hfirst
  simp only [pageFreeCollect, hp] at h
  split at h
  · cases h
    exact hheap
  · split at h
    · cases h
      exact hheap
    · split at h
      · split at h
        · cases h
        · cases h
          exact hheap
      · cases h
        exact hheap

def State.takerOf (st : State) (hp : ReclaimHeaps) (heap : ℕ)
    (slice : SlicePtr) : ℕ :=
  reclaimTarget hp heap (st.slices slice).heapTag

theorem reclaimTarget_mem (hp : ReclaimHeaps) (heap tag : ℕ) :
    reclaimTarget hp heap tag = heap ∨
      reclaimTarget hp heap tag ∈ hp.heaps := by
  unfold reclaimTarget heapByTag
  split
  · exact .inl rfl
  · cases hfind : hp.heaps.find? fun curr => decide (hp.tag curr = tag) with
    | none => exact .inl rfl
    | some found => exact .inr (List.mem_of_find?_eq_some hfind)

theorem SlicePtr.page_inj {slice other : SlicePtr}
    (h : slice.page = other.page) : slice = other := by
  obtain ⟨hsegment, hidx⟩ := Nat.pair_eq_pair.mp h
  cases slice
  cases other
  simp_all

/-! ## The spans -/

structure Reclaiming (st₀ : State) (tid : ℕ) (owned : Set ℕ)
    (tiles : ℕ → List (Tile SpanKind)) (segment : ℕ)
    (ts : List (Tile SpanKind)) (live : ℕ → List Addr) (hp : ReclaimHeaps)
    (heap idx : ℕ) (st : State) (old done ahead : List (Tile SpanKind))
    (lists : ℕ → List SlicePtr) : Prop where
  pos : 0 < idx
  split : ts = old ++ ahead
  layout : SpanLayout st tid (insert segment owned)
    (Function.update tiles segment (done ++ park ahead)) lists
  before : Tiles 0 done idx
  after : Tiles idx ahead (st₀.segments segment).sliceEntries
  idle : ∀ tile, tile ∈ done ∨ tile ∈ ahead → tile.kind ≠ .detached
  entry : ∀ tile ∈ ahead, tile.kind = .used → SpanEntry st segment tile
  parked : ∀ tile ∈ ahead, tile.kind = .free → Parked st segment tile
  kept : ∀ tile : Tile SpanKind, tile.kind = .used →
    (tile ∈ done ↔ tile ∈ old ∧ KeptTile live tile)
  unvisited : ∀ tile ∈ ahead, tile.kind = .used →
    st.slices ⟨segment, tile.start⟩ = st₀.slices ⟨segment, tile.start⟩
  visited : ∀ tile ∈ done, tile.kind = .used → tile.start ≠ 0 →
    (st.slices ⟨segment, tile.start⟩).xheap =
        some (st₀.takerOf hp heap ⟨segment, tile.start⟩) ∧
      ∃ free localFree, PagePartition (st.slices ⟨segment, tile.start⟩)
        (live tile.start) free localFree []
  used : (st.segments segment).used + 1 = usedCount (done ++ ahead)
  abandoned : (st.segments segment).abandoned = usedCount ahead
  dontFree : (st.segments segment).dontFree =
    (st₀.segments segment).dontFree
  others : ∀ s, s ≠ segment → st.segments s = st₀.segments s
  frame : ∀ slice : SlicePtr, slice.segment ≠ segment →
    st.slices slice = st₀.slices slice
  links : ∀ slice : SlicePtr, slice.segment ∉ insert segment owned →
    st.links.next slice = st₀.links.next slice ∧
      st.links.prev slice = st₀.links.prev slice
  spans : ∀ t, t ≠ tid → st.spans t = st₀.spans t

namespace Reclaiming

variable {st₀ st : State} {tid : ℕ} {owned : Set ℕ}
  {tiles : ℕ → List (Tile SpanKind)} {segment : ℕ}
  {ts : List (Tile SpanKind)} {live : ℕ → List Addr} {hp : ReclaimHeaps}
  {heap idx : ℕ} {old done ahead : List (Tile SpanKind)}
  {lists : ℕ → List SlicePtr} {tile : Tile SpanKind}

theorem owned_self : segment ∈ insert segment owned := Set.mem_insert _ _

/-- After a range has been coalesced: what is merged is passed. -/
theorem merged (h : Reclaiming st₀ tid owned tiles segment ts live hp heap idx
      st old done (tile :: ahead) lists)
    (hgone : tile.kind = .used → ¬ KeptTile live tile)
    {st₁ st' : State} {done' rest' : List (Tile SpanKind)}
    {first total : ℕ} {lists' : ℕ → List SlicePtr}
    (hslices : ∀ slice : SlicePtr, slice ≠ ⟨segment, tile.start⟩ →
      st₁.slices slice = st.slices slice)
    (hothers : ∀ s, s ≠ segment → st₁.segments s = st.segments s)
    (hlinks : ∀ slice : SlicePtr, slice.segment ≠ segment →
      st₁.links.next slice = st.links.next slice ∧
        st₁.links.prev slice = st.links.prev slice)
    (hspans : st₁.spans = st.spans)
    (hmerged : Merged done tile.start tile.count ahead done' first total
      rest')
    (howned : MergedOwned st₁ st' tid (insert segment owned) tiles segment
      lists done' first total (park rest') lists')
    (hparked : ∀ other ∈ rest', other.kind = .free →
      Parked st' segment other)
    (hused : (st'.segments segment).used + 1 = usedCount (done ++ ahead))
    (habandoned : (st'.segments segment).abandoned = usedCount ahead)
    (hdontFree : (st'.segments segment).dontFree =
      (st₀.segments segment).dontFree) :
    ∃ old', Reclaiming st₀ tid owned tiles segment ts live hp heap
      (first + total) st' old' (done' ++ [⟨first, total, .free⟩]) rest'
      lists' := by
  have hstart : tile.start = idx := h.after.1
  have hpos := h.pos
  have hcount := h.after.2.1
  have hbefore : Tiles 0 done tile.start := hstart ▸ h.before
  have hafter : Tiles (tile.start + tile.count) ahead
      (st₀.segments segment).sliceEntries := h.after.2.2
  obtain ⟨hfirst, hlast, hle, hge, htotal⟩ :=
    hmerged.bounds hbefore hafter hcount
  have hcounts := hmerged.usedCount_eq
  have hout : ∀ other : Tile SpanKind, other ∈ done' ∨ other ∈ rest' →
      other.stop ≤ first ∨ first + total ≤ other.start := by
    rintro other (hleft | hright)
    · exact .inl (hfirst.bounds hleft).2.2
    · exact .inr (hlast.bounds hright).1
  have hcountPos : ∀ other : Tile SpanKind, other ∈ done' ∨ other ∈ rest' →
      0 < other.count := by
    rintro other (hleft | hright)
    · exact (hfirst.bounds hleft).2.1
    · exact (hlast.bounds hright).2.1
  -- the spans at both sides keep their entries
  have hsame : ∀ other : Tile SpanKind, other ∈ done' ∨ other ∈ rest' →
      ∀ i, other.start ≤ i → i < other.stop →
        st'.slices ⟨segment, i⟩ = st.slices ⟨segment, i⟩ := by
    intro other hother i hlo hhi
    have hcase := hout other hother
    have hoff : i < first ∨ first + total ≤ i := by omega
    rw [howned.frame ⟨segment, i⟩ fun _ => hoff]
    apply hslices
    intro heq
    injection heq with _ hidx
    omega
  have hhead : ∀ other : Tile SpanKind, other ∈ done' ∨ other ∈ rest' →
      st'.slices ⟨segment, other.start⟩ =
        st.slices ⟨segment, other.start⟩ := by
    intro other hother
    have hposOther := hcountPos other hother
    refine hsame other hother other.start le_rfl ?_
    simp only [Tile.stop]
    omega
  obtain ⟨passed, hpassed, hpassedFree⟩ : ∃ passed : List (Tile SpanKind),
      ahead = passed ++ rest' ∧ ∀ other ∈ passed, other.kind = .free := by
    rcases hmerged.next with ⟨rfl, -, -⟩ | ⟨next, rfl, hfree, -⟩
    · exact ⟨[], rfl, by simp⟩
    · exact ⟨[next], rfl, by simpa using hfree⟩
  have hahead : ∀ other ∈ rest', other ∈ tile :: ahead := by
    intro other hother
    exact List.mem_cons_of_mem _ (hmerged.kept.2 hother)
  have hdone : ∀ other : Tile SpanKind, other.kind = .used →
      (other ∈ done' ++ [⟨first, total, .free⟩] ↔ other ∈ done) := by
    intro other hotherUsed
    have hne : other ≠ ⟨first, total, .free⟩ := by
      rintro rfl
      cases hotherUsed
    simp [hne, (hmerged.mem_used hotherUsed).1]
  refine ⟨old ++ tile :: passed,
    { pos := by omega
      split := by rw [h.split, hpassed]; simp
      layout := howned.layout
      before := tiles_append.mpr ⟨first, hfirst, rfl, htotal, rfl⟩
      after := hlast
      idle := ?_
      entry := ?_
      parked := hparked
      kept := ?_
      unvisited := ?_
      visited := ?_
      used := ?_
      abandoned := by rw [habandoned, hcounts.2]
      dontFree := hdontFree
      others := ?_
      frame := ?_
      links := ?_
      spans := ?_ }⟩
  · rintro other (hleft | hright)
    · rw [List.mem_append, List.mem_singleton] at hleft
      rcases hleft with hmem | rfl
      · exact h.idle other (.inl (hmerged.kept.1 hmem))
      · simp
    · exact h.idle other (.inr (hahead other hright))
  · intro other hother hotherUsed
    apply (h.entry other (hahead other hother) hotherUsed).congr
      (hcountPos other (.inr hother))
    intro i hlo hhi
    rw [hsame other (.inr hother) i hlo hhi]
    exact .refl _
  · intro other hotherUsed
    rw [hdone other hotherUsed, h.kept other hotherUsed]
    constructor
    · rintro ⟨hold, hkept⟩
      exact ⟨by simp [hold], hkept⟩
    · rintro ⟨hold, hkept⟩
      refine ⟨?_, hkept⟩
      rw [List.mem_append, List.mem_cons] at hold
      rcases hold with hold | rfl | hfree
      · exact hold
      · exact absurd hkept (hgone hotherUsed)
      · have hkind := hpassedFree other hfree
        rw [hotherUsed] at hkind
        cases hkind
  · intro other hother hotherUsed
    rw [hhead other (.inr hother)]
    exact h.unvisited other (hahead other hother) hotherUsed
  · intro other hother hotherUsed hzero
    have hold := (hdone other hotherUsed).mp hother
    rw [hhead other (.inl ((hmerged.mem_used hotherUsed).1.mp hold))]
    exact h.visited other hold hotherUsed hzero
  · rw [hused]
    simp [hcounts]
  · intro s hs
    rw [howned.others s hs, hothers s hs]
    exact h.others s hs
  · intro slice hslice
    have hne : slice ≠ ⟨segment, tile.start⟩ := by
      rintro rfl
      exact hslice rfl
    rw [howned.frame slice fun heq => absurd heq hslice, hslices slice hne]
    exact h.frame slice hslice
  · intro slice hslice
    have hne : slice.segment ≠ segment := by
      rintro rfl
      exact hslice owned_self
    have hhead : slice ≠ ⟨segment, first⟩ := by
      rintro rfl
      exact hne rfl
    obtain ⟨hnext, hprev⟩ := howned.links slice hhead
      (h.layout.notMem_of_notOwned hslice)
    obtain ⟨hnext₁, hprev₁⟩ := hlinks slice hne
    obtain ⟨hnext₀, hprev₀⟩ := h.links slice hslice
    exact ⟨hnext.trans (hnext₁.trans hnext₀),
      hprev.trans (hprev₁.trans hprev₀)⟩
  · intro t ht
    rw [howned.spans t ht, hspans]
    exact h.spans t ht

/-- The tile that the loop is at, for the slice structure. -/
theorem current (h : Reclaiming st₀ tid owned tiles segment ts live hp heap
      idx st old done (tile :: ahead) lists) :
    (tile.kind = .free → Function.update tiles segment
        (done ++ park (tile :: ahead)) segment =
          done ++ [⟨tile.start, tile.count, .detached⟩] ++ park ahead) ∧
      (tile.kind = .used → Function.update tiles segment
        (done ++ park (tile :: ahead)) segment =
          done ++ [⟨tile.start, tile.count, .used⟩] ++ park ahead) := by
  rw [Function.update_self]
  constructor
  · intro hfree
    simp [parkTile, hfree]
  · intro hused
    obtain ⟨start, count, kind⟩ := tile
    cases hused
    simp [parkTile]

/-- A free span joins the spans of the thread. -/
theorem takeSpan (cfg : Config)
    (h : Reclaiming st₀ tid owned tiles segment ts live hp heap idx st old
      done (tile :: ahead) lists)
    (hfree : tile.kind = .free) :
    ∃ first total st' old' done' ahead' lists',
      segmentSpanFreeCoalesce cfg st tid ⟨segment, tile.start⟩ =
        (⟨segment, first⟩, st') ∧
      (st'.slices ⟨segment, first⟩).sliceCount = total ∧
      idx < first + total ∧
      Reclaiming st₀ tid owned tiles segment ts live hp heap (first + total)
        st' old' (done' ++ [⟨first, total, .free⟩]) ahead' lists' ∧
      Merged done tile.start tile.count ahead done' first total ahead' ∧
      ∀ other ∈ done', st'.slices ⟨segment, other.start⟩ =
        st.slices ⟨segment, other.start⟩ := by
  have hstart : tile.start = idx := h.after.1
  have hspan := h.parked tile List.mem_cons_self hfree
  obtain ⟨done', first, total, rest', st', lists', hresult, hmerged,
    honly, howned, hparked⟩ := coalesce_parked cfg h.layout owned_self
      (h.current.1 hfree) (fun other hother => h.idle other (.inl hother))
      (fun other hother => h.idle other (.inr (List.mem_cons_of_mem _ hother)))
      (fun other hother => h.parked other (List.mem_cons_of_mem _ hother))
      hspan.span.sliceCount
  have hlayout := howned.layout
  rw [Function.update_idem] at hlayout
  have howned' : MergedOwned st st' tid (insert segment owned) tiles segment
      lists done' first total (park rest') lists' :=
    { howned with layout := hlayout }
  obtain ⟨commit, hcommit⟩ := honly segment
  have hcounts : usedCount (tile :: ahead) = usedCount ahead := by
    simp [hfree]
  have hused : (st'.segments segment).used + 1 = usedCount (done ++ ahead) := by
    rw [honly.used, h.used, usedCount_append, hcounts, usedCount_append]
  have habandoned : (st'.segments segment).abandoned = usedCount ahead := by
    rw [hcommit, ← hcounts]
    exact h.abandoned
  have hdontFree : (st'.segments segment).dontFree =
      (st₀.segments segment).dontFree := by
    rw [hcommit]
    exact h.dontFree
  have hgone : tile.kind = .used → ¬ KeptTile live tile := by
    intro hcase
    rw [hfree] at hcase
    cases hcase
  obtain ⟨old', hnew⟩ := h.merged hgone (fun _ _ => rfl) (fun _ _ => rfl)
    (fun _ _ => ⟨rfl, rfl⟩) rfl hmerged howned' hparked hused habandoned
    hdontFree
  have hbefore : Tiles 0 done tile.start := hstart ▸ h.before
  obtain ⟨hfirst, -, -, hge, -⟩ :=
    hmerged.bounds hbefore h.after.2.2 h.after.2.1
  refine ⟨first, total, st', old', done', rest', lists', hresult, ?_, ?_,
    hnew, hmerged, ?_⟩
  · have hmem : (⟨first, total, .free⟩ : Tile SpanKind) ∈
        Function.update tiles segment ((done' ++ [⟨first, total, .free⟩]) ++
          park rest') segment := by
      simp
    exact hnew.layout.headCount owned_self hmem (by simp)
  · have hcount := h.after.2.1
    omega
  · intro other hother
    have hbounds := hfirst.bounds hother
    apply howned.frame
    intro _
    simp only [Tile.stop] at hbounds ⊢
    omega

/-- The page goes to its heap. -/
theorem takePage
    (h : Reclaiming st₀ tid owned tiles segment ts live hp heap idx st old
      done (tile :: ahead) lists)
    (hused : tile.kind = .used) (hlive : live tile.start ≠ [])
    {page : PageFields}
    (hsame : SameSpan (st.slices ⟨segment, tile.start⟩) page)
    (hheap : page.xheap =
      some (st₀.takerOf hp heap ⟨segment, tile.start⟩))
    {free localFree : List Addr}
    (hpage : PagePartition page (live tile.start) free localFree []) :
    Reclaiming st₀ tid owned tiles segment ts live hp heap tile.stop
      ((st.unabandonPage segment).setSlice ⟨segment, tile.start⟩ page)
      (old ++ [tile]) (done ++ [tile]) ahead lists := by
  have hstart : tile.start = idx := h.after.1
  have hpos := h.pos
  have hcount := h.after.2.1
  have hkept : parkTile tile = tile :=
    parkTile_of_ne (by rw [hused]; decide)
  set st' := (st.unabandonPage segment).setSlice ⟨segment, tile.start⟩ page
    with hst'
  have hself : st'.slices ⟨segment, tile.start⟩ = page :=
    State.setSlice_self _ _ _
  have hother : ∀ slice, slice ≠ ⟨segment, tile.start⟩ →
      st'.slices slice = st.slices slice := fun slice hne =>
    State.setSlice_ne _ _ hne
  have hslices : ∀ slice,
      SameSpan (st.slices slice) (st'.slices slice) := by
    intro slice
    by_cases hslice : slice = ⟨segment, tile.start⟩
    · rw [hslice, hself]
      exact hsame
    · rw [hother slice hslice]
      exact .refl _
  have hinfo : st'.segments segment =
      { st.segments segment with
        abandoned := (st.segments segment).abandoned - 1 } :=
    State.setSegment_self _ _ _
  have hsegments : ∀ s, s ≠ segment → st'.segments s = st.segments s :=
    fun s hs => State.setSegment_ne _ _ hs
  have hheader : ∀ s ∈ insert segment owned,
      SameHeader (st.segments s) (st'.segments s) := by
    intro s _
    by_cases hs : s = segment
    · rw [hs, hinfo]
      exact ⟨rfl, rfl, rfl⟩
    · rw [hsegments s hs]
      exact .refl _
  have hlayout : SpanLayout st' tid (insert segment owned)
      (Function.update tiles segment (done ++ park (tile :: ahead))) lists :=
    h.layout.congr hslices hheader rfl rfl
  -- the other heads are elsewhere
  have hne : ∀ other, other ∈ done ∨ other ∈ ahead →
      (⟨segment, other.start⟩ : SlicePtr) ≠ ⟨segment, tile.start⟩ := by
    rintro other (hleft | hright) heq
    · have hbounds := h.before.bounds hleft
      injection heq with _ hidx
      simp only [Tile.stop] at hbounds
      omega
    · have hbounds := h.after.2.2.bounds hright
      injection heq with _ hidx
      simp only [Tile.stop] at hbounds
      omega
  refine
    { pos := by
        simp only [Tile.stop]
        omega
      split := by rw [h.split]; simp
      layout := by simpa [hkept] using hlayout
      before := tiles_append.mpr ⟨idx, h.before, hstart, hcount, rfl⟩
      after := h.after.2.2
      idle := ?_
      entry := ?_
      parked := ?_
      kept := ?_
      unvisited := ?_
      visited := ?_
      used := ?_
      abandoned := ?_
      dontFree := by rw [hinfo]; exact h.dontFree
      others := fun s hs => (hsegments s hs).trans (h.others s hs)
      frame := ?_
      links := h.links
      spans := h.spans }
  · rintro other (hleft | hright)
    · rw [List.mem_append, List.mem_singleton] at hleft
      rcases hleft with hmem | rfl
      · exact h.idle other (.inl hmem)
      · exact h.idle other (.inr List.mem_cons_self)
    · exact h.idle other (.inr (List.mem_cons_of_mem _ hright))
  · intro other hmem hotherUsed
    exact (h.entry other (List.mem_cons_of_mem _ hmem) hotherUsed).congr
      (h.after.2.2.bounds hmem).2.1 fun _ _ _ => hslices _
  · intro other hmem hfree
    have hold := h.parked other (List.mem_cons_of_mem _ hmem) hfree
    have hentry : SpanEntry st segment other := by
      unfold SpanEntry
      rw [hfree]
      exact hold.span
    have hentry' : SpanEntry st' segment other :=
      hentry.congr (h.after.2.2.bounds hmem).2.1 fun _ _ _ => hslices _
    exact ⟨hentry'.free hfree, hold.next, hold.prev⟩
  · intro other hotherUsed
    simp only [List.mem_append, List.mem_singleton, h.kept other hotherUsed]
    constructor
    · rintro (⟨hold, hrest⟩ | rfl)
      · exact ⟨.inl hold, hrest⟩
      · exact ⟨.inr rfl, hused, .inr hlive⟩
    · rintro ⟨hold | rfl, hrest⟩
      · exact .inl ⟨hold, hrest⟩
      · exact .inr rfl
  · intro other hmem hotherUsed
    rw [hother _ (hne other (.inr hmem))]
    exact h.unvisited other (List.mem_cons_of_mem _ hmem) hotherUsed
  · intro other hmem hotherUsed hzero
    rw [List.mem_append, List.mem_singleton] at hmem
    rcases hmem with hdone | rfl
    · rw [hother _ (hne other (.inl hdone))]
      exact h.visited other hdone hotherUsed hzero
    · rw [hself]
      exact ⟨hheap, free, localFree, hpage⟩
  · rw [hinfo, List.append_assoc, List.singleton_append]
    exact h.used
  · rw [hinfo]
    simp only [h.abandoned, usedCount_cons, hused, if_true,
      Nat.add_sub_cancel]
  · intro slice hslice
    have hsliceNe : slice ≠ ⟨segment, tile.start⟩ := by
      rintro rfl
      exact hslice rfl
    rw [hother slice hsliceNe]
    exact h.frame slice hslice

/-- A page without live blocks joins the spans of the thread. -/
theorem clearPage (cfg : Config)
    (h : Reclaiming st₀ tid owned tiles segment ts live hp heap idx st old
      done (tile :: ahead) lists)
    (hused : tile.kind = .used) (hlive : live tile.start = [])
    {page : PageFields}
    (hsame : SameSpan (st.slices ⟨segment, tile.start⟩) page) :
    ∃ first total st' old' done' ahead' lists',
      segmentPageClear cfg ((st.unabandonPage segment).setSlice
          ⟨segment, tile.start⟩ page) tid ⟨segment, tile.start⟩ =
        (⟨segment, first⟩, st') ∧
      (st'.slices ⟨segment, first⟩).sliceCount = total ∧
      idx < first + total ∧
      Reclaiming st₀ tid owned tiles segment ts live hp heap (first + total)
        st' old' (done' ++ [⟨first, total, .free⟩]) ahead' lists' ∧
      Merged done tile.start tile.count ahead done' first total ahead' ∧
      ∀ other ∈ done', st'.slices ⟨segment, other.start⟩ =
        st.slices ⟨segment, other.start⟩ := by
  have hstart : tile.start = idx := h.after.1
  have hpos := h.pos
  set slice : SlicePtr := ⟨segment, tile.start⟩ with hslice
  set st₁ := (st.unabandonPage segment).setSlice slice page with hst₁
  set st₂ := st₁.writePage slice (st₁.slices slice).clear none none st₁.os
    with hst₂
  have hself₁ : st₁.slices slice = page := State.setSlice_self _ _ _
  have hself₂ : st₂.slices slice = page.clear := by
    rw [← hself₁]
    exact State.setSlice_self _ _ _
  have hother₂ : ∀ other, other ≠ slice →
      st₂.slices other = st.slices other := by
    intro other hne
    exact (State.setSlice_ne _ _ hne).trans (State.setSlice_ne _ _ hne)
  have hinfo₂ : st₂.segments segment =
      { st.segments segment with
        abandoned := (st.segments segment).abandoned - 1 } :=
    State.setSegment_self _ _ _
  have hsegments₂ : ∀ s, s ≠ segment → st₂.segments s = st.segments s :=
    fun s hs => State.setSegment_ne _ _ hs
  have hslices : ∀ other, SameSpan (st.slices other) (st₁.slices other) := by
    intro other
    by_cases hother : other = slice
    · rw [hother, hself₁]
      exact hsame
    · rw [hst₁, State.setSlice_ne _ _ hother]
      exact .refl _
  have hheader : ∀ s ∈ insert segment owned,
      SameHeader (st.segments s) (st₁.segments s) := by
    intro s _
    by_cases hs : s = segment
    · rw [hs, show st₁.segments segment = st₂.segments segment from rfl,
        hinfo₂]
      exact ⟨rfl, rfl, rfl⟩
    · rw [show st₁.segments s = st₂.segments s from rfl, hsegments₂ s hs]
      exact .refl _
  have hlayout₁ : SpanLayout st₁ tid (insert segment owned)
      (Function.update tiles segment (done ++ park (tile :: ahead))) lists :=
    h.layout.congr hslices hheader rfl rfl
  have hlayout₂ : SpanLayout st₂ tid (insert segment owned)
      (Function.update tiles segment
        (done ++ [⟨tile.start, tile.count, .detached⟩] ++ park ahead))
      lists := by
    have hdetached : SpanEntry st₂ segment
        ⟨tile.start, tile.count, .detached⟩ := trivial
    have hfirst : slice.idx = 0 → SpanKind.detached = .used := by
      intro hzero
      have hidx : slice.idx = tile.start := rfl
      omega
    have hwrite : SpanLayout st₂ tid (insert segment owned)
        (Function.update (Function.update tiles segment
          (done ++ park (tile :: ahead))) slice.segment
            (done ++ [⟨slice.idx, tile.count, .detached⟩] ++ park ahead))
        lists :=
      hlayout₁.writePage owned_self (h.current.2 hused) (by simp) hfirst _
        none none _ hdetached
    rw [Function.update_idem] at hwrite
    exact hwrite
  have hlinks : ∀ other, other ≠ slice →
      st₂.links.next other = st.links.next other ∧
        st₂.links.prev other = st.links.prev other := by
    intro other hne
    simp [hst₂, hst₁, State.writePage, Links.next_setNext,
      Links.prev_setPrev, hne.symm, State.unabandonPage, State.setSegment,
      State.setSlice]
  -- the spans ahead are not touched
  have hparked : ∀ other ∈ ahead, other.kind = .free →
      Parked st₂ segment other := by
    intro other hother hfree
    have hold := h.parked other (List.mem_cons_of_mem _ hother) hfree
    have hbounds := h.after.2.2.bounds hother
    have hcount := h.after.2.1
    have hne : ∀ i, other.start ≤ i → (⟨segment, i⟩ : SlicePtr) ≠ slice := by
      intro i hlo heq
      injection heq with _ hidx
      simp only [Tile.stop] at hbounds
      omega
    have hentry : SpanEntry st segment other := by
      unfold SpanEntry
      rw [hfree]
      exact hold.span
    have hentry' : SpanEntry st₂ segment other := by
      apply hentry.congr hbounds.2.1
      intro i hlo _
      rw [hother₂ _ (hne i hlo)]
      exact .refl _
    obtain ⟨hnext, hprev⟩ := hlinks _ (hne other.start le_rfl)
    exact ⟨hentry'.free hfree, hnext.trans hold.next, hprev.trans hold.prev⟩
  have hsliceCount : (st₂.slices ⟨segment, tile.start⟩).sliceCount =
      tile.count := by
    have hentry := h.entry tile List.mem_cons_self hused
    rw [hself₂]
    exact hsame.sliceCount.trans (hentry.used hused).sliceCount
  obtain ⟨done', first, total, rest', st₃, lists', hcoalesce, hmerged,
    honly, howned, hparked₃⟩ := coalesce_parked cfg hlayout₂ owned_self
      (Function.update_self _ _ _)
      (fun other hother => h.idle other (.inl hother))
      (fun other hother => h.idle other (.inr (List.mem_cons_of_mem _ hother)))
      hparked hsliceCount
  have hbefore : Tiles 0 done tile.start := hstart ▸ h.before
  obtain ⟨hfirst, -, -, hge, -⟩ :=
    hmerged.bounds hbefore h.after.2.2 h.after.2.1
  set st' := st₃.setSegment segment { st₃.segments segment with
    used := (st₃.segments segment).used - 1
    freeIsZero := false } with hst'
  have hresult : segmentPageClear cfg st₁ tid slice =
      (⟨segment, first⟩, st') := by
    have hclear : segmentPageClear cfg st₁ tid slice =
        ((segmentSpanFreeCoalesce cfg st₂ tid slice).1,
          (segmentSpanFreeCoalesce cfg st₂ tid slice).2.setSegment segment
            { (segmentSpanFreeCoalesce cfg st₂ tid slice).2.segments
                segment with
              used := ((segmentSpanFreeCoalesce cfg st₂ tid slice).2.segments
                segment).used - 1
              freeIsZero := false }) := rfl
    rw [hclear, hcoalesce]
  obtain ⟨commit, hcommit⟩ := honly segment
  have hself' : st'.segments segment =
      { (st.segments segment).withCommit commit with
        abandoned := (st.segments segment).abandoned - 1
        used := (st.segments segment).used - 1
        freeIsZero := false } := by
    rw [hst', State.setSegment_self, hcommit, hinfo₂]
    rfl
  have hothers' : ∀ s, s ≠ segment → st'.segments s = st₂.segments s := by
    intro s hs
    rw [hst', State.setSegment_ne _ _ hs, howned.others s hs]
  have hheader' : ∀ s ∈ insert segment owned,
      SameHeader (st₃.segments s) (st'.segments s) := by
    intro s _
    by_cases hs : s = segment
    · rw [hs, hst', State.setSegment_self]
      exact ⟨rfl, rfl, rfl⟩
    · rw [hst', State.setSegment_ne _ _ hs]
      exact .refl _
  have hlayout' : SpanLayout st' tid (insert segment owned) _ lists' :=
    howned.layout.congr (fun _ => .refl _) hheader' rfl rfl
  rw [Function.update_idem] at hlayout'
  have howned' : MergedOwned st₂ st' tid (insert segment owned) tiles segment
      lists done' first total (park rest') lists' :=
    ⟨hlayout', hothers', howned.links, howned.spans, howned.frame⟩
  have hparked' : ∀ other ∈ rest', other.kind = .free →
      Parked st' segment other := by
    intro other hother hfree
    obtain ⟨⟨hcount, hoffset, hsize, hlast, hrest⟩, hnext, hprev⟩ :=
      hparked₃ other hother hfree
    exact ⟨⟨hcount, hoffset, hsize, hlast, hrest⟩, hnext, hprev⟩
  have hcounts : usedCount (tile :: ahead) = usedCount ahead + 1 := by
    simp [hused]
  have hold := h.used
  rw [usedCount_append, hcounts] at hold
  have hinfoUsed : 0 < usedCount done := by
    obtain ⟨info, hinfo, hzero, hkind⟩ := h.layout.info segment owned_self
    rw [Function.update_self, List.mem_append] at hinfo
    rcases hinfo with hmem | hmem
    · exact usedCount_pos hmem hkind
    · have hbounds := (tiles_park.mpr h.after).bounds hmem
      omega
  have hused' : (st'.segments segment).used + 1 =
      usedCount (done ++ ahead) := by
    rw [hself', usedCount_append]
    change (st.segments segment).used - 1 + 1 = _
    omega
  have habandoned' : (st'.segments segment).abandoned = usedCount ahead := by
    rw [hself']
    change (st.segments segment).abandoned - 1 = _
    rw [h.abandoned, hcounts, Nat.add_sub_cancel]
  have hdontFree' : (st'.segments segment).dontFree =
      (st₀.segments segment).dontFree := by
    rw [hself']
    exact h.dontFree
  have hgone : tile.kind = .used → ¬ KeptTile live tile := by
    rintro - ⟨-, hzero | hmore⟩
    · omega
    · exact hmore hlive
  have hlinksOther : ∀ other : SlicePtr, other.segment ≠ segment →
      st₂.links.next other = st.links.next other ∧
        st₂.links.prev other = st.links.prev other := by
    intro other hne
    apply hlinks
    rintro rfl
    exact hne rfl
  obtain ⟨old', hnew⟩ := h.merged hgone hother₂ hsegments₂ hlinksOther rfl
    hmerged howned' hparked' hused' habandoned' hdontFree'
  refine ⟨first, total, st', old', done', rest', lists', hresult, ?_, ?_,
    hnew, hmerged, ?_⟩
  · have hmem : (⟨first, total, .free⟩ : Tile SpanKind) ∈
        Function.update tiles segment ((done' ++ [⟨first, total, .free⟩]) ++
          park rest') segment := by
      simp
    exact hnew.layout.headCount owned_self hmem (by simp)
  · have hcount := h.after.2.1
    omega
  · intro other hother
    have hbounds := hfirst.bounds hother
    have hout : other.start < first ∨ first + total ≤ other.start := by
      simp only [Tile.stop] at hbounds
      omega
    refine (howned.frame ⟨segment, other.start⟩ fun _ => hout).trans ?_
    apply hother₂
    intro heq
    injection heq with _ hidx
    have hbefore' := hbefore.bounds (hmerged.kept.1 hother)
    simp only [Tile.stop] at hbefore'
    omega

end Reclaiming

end Palloc
