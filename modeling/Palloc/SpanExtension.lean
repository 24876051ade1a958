import Palloc.SpanAllocation

/-!
# Extending a page in place

`_pa_segment_try_extend_span` takes the free span after a page, gives back
what it does not need and commits the rest, and only then writes the entries
of the longer page.  When the commit fails it returns without undoing the
first steps: the slices it took are in no span queue and marked as used.
-/

namespace Palloc

open LinkedQueue IntervalTiling

/-- The checks of `_pa_segment_try_extend_span` before it changes anything. -/
def ExtendGuards (st : State) (page : SlicePtr) (needSlices : ℕ) : Prop :=
  let current := (st.slices page).sliceCount
  let next : SlicePtr := ⟨page.segment, page.idx + current⟩
  page.idx + current + needSlices ≤
      (st.segments page.segment).sliceEntries ∧
    (st.slices next).blockSize = 0 ∧ 0 < (st.slices next).sliceCount ∧
      needSlices ≤ (st.slices next).sliceCount

instance (st : State) (page : SlicePtr) (needSlices : ℕ) :
    Decidable (ExtendGuards st page needSlices) :=
  inferInstanceAs (Decidable (_ ∧ _ ∧ _ ∧ _))

/-- The commit for the new slices asks the operating system and fails. -/
def ExtendCommitFails (st : State) (page : SlicePtr) (needSlices : ℕ) :
    Prop :=
  let next : SlicePtr :=
    ⟨page.segment, page.idx + (st.slices page).sliceCount⟩
  CommitNeeded (st.segments page.segment) page.segment next.start
      (needSlices * segmentSliceSize) ∧ st.os.answer.commitOk = false

instance (st : State) (page : SlicePtr) (needSlices : ℕ) :
    Decidable (ExtendCommitFails st page needSlices) :=
  inferInstanceAs (Decidable (_ ∧ _))

section Result

variable {cfg : Config} {st : State} {tid : ℕ} {page : SlicePtr}
  {needSlices : ℕ}

theorem segmentTryExtendSpan_refused
    (hguards : ¬ ExtendGuards st page needSlices) :
    segmentTryExtendSpan cfg st tid page needSlices = (false, st) := by
  unfold ExtendGuards at hguards
  unfold segmentTryExtendSpan
  simp only at hguards ⊢
  split
  · rfl
  · split
    · rfl
    · split
      · rfl
      · exfalso
        omega

theorem setFreeSpan_frame (st : State) (segment idx count : ℕ) :
    (st.setFreeSpan segment idx count).segments = st.segments ∧
      (st.setFreeSpan segment idx count).os = st.os := by
  unfold State.setFreeSpan
  simp only
  split
  · exact ⟨rfl, rfl⟩
  · exact ⟨rfl, rfl⟩

theorem segmentSpanFree_unpurged (cfg : Config) (st : State)
    (tid segment idx count : ℕ) :
    (segmentSpanFree cfg st tid segment idx count false).segments =
        st.segments ∧
      (segmentSpanFree cfg st tid segment idx count false).os = st.os := by
  unfold segmentSpanFree
  simp only [Bool.false_eq_true, if_false]
  split
  · exact setFreeSpan_frame st segment idx _
  · exact setFreeSpan_frame st segment idx _

theorem extendTaken_frame (cfg : Config) (st : State) (tid : ℕ)
    (next : SlicePtr) (needSlices : ℕ) :
    (extendTaken cfg st tid next needSlices).segments = st.segments ∧
      (extendTaken cfg st tid next needSlices).os = st.os := by
  unfold extendTaken
  simp only
  split
  · exact segmentSpanFree_unpurged cfg _ tid next.segment _ _
  · exact ⟨rfl, rfl⟩

theorem segmentTryExtendSpan_eq (hguards : ExtendGuards st page needSlices) :
    segmentTryExtendSpan cfg st tid page needSlices =
      let current := (st.slices page).sliceCount
      let next : SlicePtr := ⟨page.segment, page.idx + current⟩
      let result := segmentEnsureCommitted cfg (st.segments page.segment)
        st.os page.segment next.start (needSlices * segmentSliceSize)
      let taken := (extendTaken cfg st tid next needSlices).setCommit
        page.segment (result.commit, result.os)
      if result.ok then (true, taken.setExtended page current needSlices)
      else (false, taken) := by
  obtain ⟨hfits, hfree, hsize, hlarge⟩ := hguards
  have hfits' : ¬ (st.segments page.segment).sliceEntries <
      page.idx + (st.slices page).sliceCount + needSlices := by omega
  have hsize' : ¬ ((st.slices ⟨page.segment,
      page.idx + (st.slices page).sliceCount⟩).sliceCount = 0 ∨
      (st.slices ⟨page.segment,
        page.idx + (st.slices page).sliceCount⟩).sliceCount <
          needSlices) := by omega
  obtain ⟨hsegments, hos⟩ := extendTaken_frame cfg st tid
    ⟨page.segment, page.idx + (st.slices page).sliceCount⟩ needSlices
  unfold segmentTryExtendSpan
  simp only [if_neg hfits', if_neg hsize', hfree, ne_eq,
    not_true_eq_false, if_false, hsegments, hos]

end Result

theorem setExtended_rest (st : State) (page : SlicePtr)
    (current needSlices : ℕ) :
    (st.setExtended page current needSlices).segments = st.segments ∧
      (st.setExtended page current needSlices).links = st.links ∧
      (st.setExtended page current needSlices).spans = st.spans := by
  unfold State.setExtended
  simp only
  split
  · exact ⟨rfl, rfl, rfl⟩
  · exact ⟨rfl, rfl, rfl⟩

/-- The entries of the longer page. -/
theorem setExtended_spec {st : State} {page : SlicePtr}
    {current needSlices : ℕ}
    (hpage : UsedSpan st page.segment page.idx current)
    (hcurrent : 0 < current) (hneed : 0 < needSlices)
    (hfits : page.idx + current + needSlices ≤
      (st.segments page.segment).sliceEntries) :
    let st' := st.setExtended page current needSlices
    UsedSpan st' page.segment page.idx (current + needSlices) ∧
      ∀ slice : SlicePtr, (slice.segment = page.segment →
        slice.idx < page.idx ∨
          page.idx + (current + needSlices) ≤ slice.idx) →
            st'.slices slice = st.slices slice := by
  intro st'
  set slices₁ := setBackOffsets st.slices page.segment (page.idx + current)
    current needSlices with hslices₁
  have hnew : ∀ i, i < needSlices →
      slices₁ ⟨page.segment, page.idx + current + i⟩ =
        (st.slices ⟨page.segment, page.idx + current + i⟩).withSpan 0
          (current + i) 1 := fun i hi =>
    setBackOffsets_at st.slices page.segment (page.idx + current) current hi
  have hold : ∀ slice : SlicePtr, (slice.segment = page.segment →
      slice.idx < page.idx + current ∨
        page.idx + current + needSlices ≤ slice.idx) →
      slices₁ slice = st.slices slice := fun slice hout =>
    setBackOffsets_frame st.slices page.segment (page.idx + current) current
      needSlices hout
  have hhead : slices₁ page = st.slices page := by
    apply hold
    intro _
    omega
  -- the last entry is written twice with the same fields
  have hlast : Function.update slices₁
      ⟨page.segment, page.idx + current + needSlices - 1⟩
      ((slices₁ ⟨page.segment,
        page.idx + current + needSlices - 1⟩).withSpan
        (slices₁ ⟨page.segment,
          page.idx + current + needSlices - 1⟩).sliceCount
        (current + needSlices - 1)
        (slices₁ ⟨page.segment,
          page.idx + current + needSlices - 1⟩).blockSize) = slices₁ := by
    have hentry := hnew (needSlices - 1) (by omega)
    rw [show page.idx + current + (needSlices - 1) =
        page.idx + current + needSlices - 1 by omega,
      show current + (needSlices - 1) = current + needSlices - 1 by omega]
      at hentry
    rw [hentry]
    apply Function.update_eq_self_iff.mpr
    rw [hentry]
    rfl
  have hslices : st'.slices = Function.update slices₁ page
      ((st.slices page).withSpan (current + needSlices)
        (st.slices page).sliceOffset
        ((current + needSlices) * segmentSliceSize)) := by
    have hin : page.idx + current + needSlices - 1 ≤
        (st.segments page.segment).sliceEntries := by omega
    change (State.setExtended st page current needSlices).slices = _
    simp only [State.setExtended, if_pos hin, State.setSlice]
    rw [← hslices₁, hlast, hhead]
  have hback : ∀ i, 0 < i →
      st'.slices ⟨page.segment, page.idx + i⟩ =
        slices₁ ⟨page.segment, page.idx + i⟩ := by
    intro i hi
    rw [hslices, Function.update_of_ne]
    intro heq
    have hidx := congrArg SlicePtr.idx heq
    simp only at hidx
    omega
  have hself : st'.slices page = (st.slices page).withSpan
      (current + needSlices) (st.slices page).sliceOffset
      ((current + needSlices) * segmentSliceSize) := by
    rw [hslices, Function.update_self]
  refine ⟨⟨?_, ?_, ?_, ?_⟩, ?_⟩
  · exact congrArg PageFields.sliceCount hself
  · exact (congrArg PageFields.sliceOffset hself).trans hpage.sliceOffset
  · have hbsize := congrArg PageFields.blockSize hself
    rw [PageFields.withSpan_blockSize] at hbsize
    change 0 < (st'.slices page).blockSize
    rw [hbsize]
    exact Nat.mul_pos (by omega) (by decide)
  · intro i hpos hi hcase
    rw [hback i hpos]
    by_cases hinside : i < current
    · rw [hold ⟨page.segment, page.idx + i⟩ (fun _ => .inl (by
        simp only
        omega))]
      exact hpage.back i hpos hinside (by omega)
    · have hentry := hnew (i - current) (by omega)
      rw [show page.idx + current + (i - current) = page.idx + i by omega,
        show current + (i - current) = i by omega] at hentry
      rw [hentry]
      exact ⟨rfl, rfl, rfl⟩
  · intro slice hout
    have hne : slice ≠ page := by
      rintro rfl
      have hcase := hout rfl
      omega
    rw [hslices, Function.update_of_ne hne]
    apply hold
    intro heq
    have hcase := hout heq
    omega

namespace SpanInvariant

variable {st : State} {tid : ℕ} {owned : Set ℕ}
  {tiles : ℕ → List (Tile SpanKind)} {lists : ℕ → List SlicePtr}
  {page : SlicePtr} {needSlices : ℕ}

/-- After the first changes: the page, and behind it a detached range of
exactly the slices that are needed. -/
theorem extendTaken (h : SpanInvariant st .idle tid owned tiles lists)
    (howned : page.segment ∈ owned) (hhead : UsedHead st page)
    (hneed : 0 < needSlices) (hguards : ExtendGuards st page needSlices)
    (cfg : Config) :
    let current := (st.slices page).sliceCount
    let next : SlicePtr := ⟨page.segment, page.idx + current⟩
    let taken := Palloc.extendTaken cfg st tid next needSlices
    (taken.slices next).blockSize = 1 ∧ ∃ before after lists',
      SpanLayout taken tid owned
        (Function.update tiles page.segment
          (before ++ [⟨page.idx, current, .used⟩,
            ⟨page.idx + current, needSlices, .detached⟩] ++ after)) lists' ∧
      (∀ tile, tile ∈ before ∨ tile ∈ after → tile.kind ≠ .detached) ∧
      usedCount (tiles page.segment) = usedCount (before ++ after) + 1 ∧
      ∀ tile, tile ∈ before ∨ tile ∈ after → tile.kind = .used →
        tile ∈ tiles page.segment := by
  obtain ⟨before, later, current, hsplit, hcurrent⟩ :=
    h.usedHead_tile howned hhead
  rw [ExtendGuards, hcurrent] at hguards
  rw [hcurrent]
  obtain ⟨hfits, hbsize, -, hlarge⟩ := hguards
  intro _ next taken
  have htiled := h.layout.tiled page.segment howned
  have hsplit' : tiles page.segment =
      before ++ ⟨page.idx, current, .used⟩ :: later := by
    rw [hsplit]
    simp
  rw [hsplit'] at htiled
  obtain ⟨succ, after, hlater, hstart⟩ := htiled.exists_succ (by
    simp only [Tile.stop]
    omega)
  simp only [Tile.stop] at hstart
  have htiles : tiles page.segment =
      (before ++ [⟨page.idx, current, .used⟩]) ++ [succ] ++ after := by
    rw [hsplit, hlater]
    simp
  have hsucc : succ ∈ tiles page.segment := by
    rw [htiles]
    simp
  obtain ⟨hsuccCount, -, hsuccFree⟩ := h.head howned hsucc
  rw [hstart] at hsuccCount hsuccFree
  have hfree : succ.kind = .free := hsuccFree.mp hbsize
  -- the neighbour leaves its queue
  have hremoved := h.layout.remove howned htiles hfree
  rw [hstart] at hremoved
  set st₁ := segmentSpanRemoveFromQueue st tid next with hst₁
  have hheadCount : (st₁.slices next).sliceCount = succ.count :=
    (spanQueueDelete_head st tid _ next).1.trans hsuccCount
  have hheadSize : (st₁.slices next).blockSize = 1 :=
    (spanQueueDelete_head st tid _ next).2.2
  have hkinds : ∀ tile, tile ∈ before ∨ tile ∈ after →
      tile.kind ≠ .detached := by
    intro tile htile
    apply h.not_detached howned
    rw [htiles]
    simp only [List.mem_append]
    tauto
  have hused : usedCount (tiles page.segment) =
      usedCount (before ++ after) + 1 := by
    rw [htiles]
    simp only [usedCount_append, usedCount_cons, usedCount_nil, hfree]
    simp only [reduceCtorEq, if_false, if_true]
    omega
  have hkept : ∀ tile, tile ∈ before ∨ tile ∈ after →
      tile ∈ tiles page.segment := by
    intro tile htile
    rw [htiles]
    simp only [List.mem_append]
    tauto
  have hregroup : ∀ l : List (Tile SpanKind),
      before ++ [⟨page.idx, current, .used⟩] ++
        [⟨page.idx + current, needSlices, .detached⟩] ++ l =
      before ++ [⟨page.idx, current, .used⟩,
        ⟨page.idx + current, needSlices, .detached⟩] ++ l := by
    intro l
    simp
  by_cases htail : needSlices < succ.count
  · have htaken : taken = segmentSpanFree cfg st₁ tid page.segment
        (page.idx + current + needSlices) (succ.count - needSlices)
        false := by
      have hpos : 0 < succ.count - needSlices := by omega
      change Palloc.extendTaken cfg st tid next needSlices = _
      unfold Palloc.extendTaken
      simp only [← hst₁, hheadCount, if_pos hpos]
      rfl
    have hapart : ∀ tile ∈ after, tile.kind = .free →
        tile.start ≠ page.idx + current + succ.count := by
      intro tile htile hfree' heq
      have hmem : tile ∈ tiles page.segment := by
        rw [htiles]
        simp [htile]
      apply h.layout.apart _ howned succ hsucc tile hmem hfree hfree'
      simp only [Tile.stop]
      omega
    have hlayout := hremoved.freeTail howned (Function.update_self _ _ _)
      hneed htail hapart cfg false
    have hstop := h.layout.stop_le howned hsucc
    simp only [Tile.stop] at hstop
    have hfreed := segmentSpanFree_spec cfg tid false
      (hremoved.kind _ howned) (hremoved.threadId_ne howned)
      (show 0 < succ.count - needSlices by omega)
      (show page.idx + current + needSlices + (succ.count - needSlices) ≤
        (st₁.segments page.segment).sliceEntries by
          change _ ≤ (st.segments page.segment).sliceEntries
          omega)
    rw [Function.update_idem, hregroup] at hlayout
    rw [htaken]
    refine ⟨?_, before, _, _, hlayout, ?_, ?_, ?_⟩
    · have hsame := hfreed.frame next
        (by
          intro heq
          have hidx := congrArg SlicePtr.idx heq
          simp only [next] at hidx
          omega)
        (by
          intro heq
          have hidx := congrArg SlicePtr.idx heq
          simp only [next] at hidx
          omega)
      exact hsame.blockSize.trans hheadSize
    · intro tile htile
      rw [List.singleton_append, List.mem_cons] at htile
      rcases htile with hb | rfl | ha
      · exact hkinds tile (.inl hb)
      · simp
      · exact hkinds tile (.inr ha)
    · rw [hused]
      simp
    · intro tile htile hkind
      rw [List.singleton_append, List.mem_cons] at htile
      rcases htile with hb | rfl | ha
      · exact hkept tile (.inl hb)
      · cases hkind
      · exact hkept tile (.inr ha)
  · have htaken : taken = st₁ := by
      have hpos : ¬ 0 < succ.count - needSlices := by omega
      change Palloc.extendTaken cfg st tid next needSlices = _
      unfold Palloc.extendTaken
      simp only [← hst₁, hheadCount, if_neg hpos]
    have hexact : succ.count = needSlices := by omega
    rw [hexact, hregroup] at hremoved
    rw [htaken]
    exact ⟨hheadSize, before, after, _, hremoved, hkinds, hused,
      fun tile htile _ => hkept tile htile⟩

/-- A successful extension joins the page and the detached range. -/
theorem extend (h : SpanInvariant st .idle tid owned tiles lists)
    (howned : page.segment ∈ owned) (hhead : UsedHead st page)
    (hneed : 0 < needSlices) {cfg : Config} {st' : State}
    (hresult : segmentTryExtendSpan cfg st tid page needSlices =
      (true, st')) :
    ∃ tiles' lists', SpanInvariant st' .idle tid owned tiles' lists' ∧
      ∀ s, ∀ tile ∈ tiles' s, tile.kind = .used → tile ∈ tiles s ∨
        s = page.segment ∧ tile =
          ⟨page.idx, (st.slices page).sliceCount + needSlices, .used⟩ := by
  have hguards : ExtendGuards st page needSlices := by
    by_contra hguards
    rw [segmentTryExtendSpan_refused hguards] at hresult
    cases hresult
  obtain ⟨-, before, after, lists₁, hlayout, hkinds, hused, hkept⟩ :=
    h.extendTaken howned hhead hneed hguards cfg
  have hfits := hguards.1
  rw [segmentTryExtendSpan_eq hguards] at hresult
  set current := (st.slices page).sliceCount with hcurrent
  set next : SlicePtr := ⟨page.segment, page.idx + current⟩ with hnext
  set taken := Palloc.extendTaken cfg st tid next needSlices with htaken
  have hsegments : taken.segments = st.segments :=
    (extendTaken_frame cfg st tid next needSlices).1
  simp only at hresult
  generalize segmentEnsureCommitted cfg _ _ _ _ _ = result at hresult
  split at hresult
  · simp only [Prod.mk.injEq, true_and] at hresult
    set st₁ := taken.setCommit page.segment (result.commit, result.os)
      with hst₁
    have hcommit : OnlyCommit taken st₁ := onlyCommit_setCommit _ _ _
    have h₁ : SpanLayout st₁ tid owned _ lists₁ :=
      hlayout.congr (fun slice => .refl _) (fun s _ => hcommit.header s) rfl
        rfl
    have hmem : (⟨page.idx, current, .used⟩ : Tile SpanKind) ∈
        Function.update tiles page.segment
          (before ++ [⟨page.idx, current, .used⟩,
            ⟨page.idx + current, needSlices, .detached⟩] ++ after)
          page.segment := by
      rw [Function.update_self]
      simp
    have hcount : 0 < current := h₁.count_pos howned hmem
    have hentries : (st₁.segments page.segment).sliceEntries =
        (st.segments page.segment).sliceEntries := by
      rw [(hcommit.header _).sliceEntries, hsegments]
    have hpage : UsedSpan st₁ page.segment page.idx current :=
      (h₁.entry _ howned _ hmem).used rfl
    obtain ⟨hlonger, hframe⟩ := setExtended_spec hpage hcount hneed
      (by rw [hentries]; exact hfits)
    obtain ⟨hsegments', hlinks', hspans'⟩ :=
      setExtended_rest st₁ page current needSlices
    have hcover : ∀ a b, Tiles a [(⟨page.idx, current, .used⟩ :
        Tile SpanKind), ⟨page.idx + current, needSlices, .detached⟩] b →
        Tiles a [(⟨page.idx, current + needSlices, .used⟩ :
          Tile SpanKind)] b := by
      rintro a b ⟨rfl, -, -, -, hend⟩
      refine ⟨rfl, by simp only; omega, ?_⟩
      simp only [Tile.stop, tiles_nil] at hend ⊢
      omega
    have hframe' : ∀ slice : SlicePtr,
        (slice.segment = page.segment →
          ∀ inner ∈ [(⟨page.idx, current, .used⟩ : Tile SpanKind),
            ⟨page.idx + current, needSlices, .detached⟩],
            slice.idx < inner.start ∨ inner.stop ≤ slice.idx) →
        SameSpan (st₁.slices slice)
          ((st₁.setExtended page current needSlices).slices slice) := by
      intro slice hout
      rw [hframe slice]
      · exact .refl _
      · intro heq
        have hfirst := hout heq ⟨page.idx, current, .used⟩ (by simp)
        have hsecond := hout heq
          ⟨page.idx + current, needSlices, .detached⟩ (by simp)
        simp only [Tile.stop] at hfirst hsecond
        omega
    have hentry : ∀ inner ∈ [(⟨page.idx, current + needSlices, .used⟩ :
        Tile SpanKind)],
        SpanEntry (st₁.setExtended page current needSlices) page.segment
          inner := by
      intro inner hinner
      rw [List.mem_singleton] at hinner
      subst hinner
      exact hlonger
    have hinfo : ∀ inner ∈ [(⟨page.idx, current, .used⟩ : Tile SpanKind),
        ⟨page.idx + current, needSlices, .detached⟩], inner.kind = .used →
        inner.start = 0 →
          ∃ inner' ∈ [(⟨page.idx, current + needSlices, .used⟩ :
            Tile SpanKind)], inner'.start = 0 ∧ inner'.kind = .used := by
      intro inner hinner hkind hstart
      simp only [List.mem_cons, List.not_mem_nil, or_false] at hinner
      rcases hinner with rfl | rfl
      · exact ⟨_, List.mem_singleton_self _, hstart, rfl⟩
      · cases hkind
    have hlayout' : SpanLayout (st₁.setExtended page current needSlices) tid
        owned (Function.update tiles page.segment
          (before ++ [⟨page.idx, current + needSlices, .used⟩] ++ after))
        lists₁ := by
      have hrewrite := h₁.rewrite_unqueued howned
        (Function.update_self _ _ _) (fun s _ => by
          rw [hsegments']
          exact .refl _) hcover hframe' hentry hinfo (by simp) (by simp)
        (fun _ _ _ => by
          rw [hlinks']
          exact ⟨rfl, rfl⟩) (by rw [hspans'])
      rw [Function.update_idem] at hrewrite
      exact hrewrite
    subst hresult
    refine ⟨_, _, h.toIdle hlayout' ?_ ?_ ?_ ?_, ?_⟩
    · intro slice hslice
      cases hslice
    · intro tile htile
      simp only [List.mem_append, List.mem_singleton] at htile
      rcases htile with (hb | rfl) | ha
      · exact hkinds tile (.inl hb)
      · simp
      · exact hkinds tile (.inr ha)
    · intro _
      have hcount' := h.used _ howned
      rw [hsegments', hcommit.used, hsegments, hcount', hused]
      simp only [usedCount_append, usedCount_cons, usedCount_nil, if_true]
      omega
    · intro s _
      rw [hsegments', hcommit.used, hsegments]
    · intro s tile htile hkind
      by_cases hs : s = page.segment
      · subst hs
        rw [Function.update_self] at htile
        simp only [List.mem_append, List.mem_singleton] at htile
        rcases htile with (hb | htile) | ha
        · exact .inl (hkept tile (.inl hb) hkind)
        · exact .inr ⟨rfl, htile⟩
        · exact .inl (hkept tile (.inr ha) hkind)
      · rw [Function.update_of_ne hs] at htile
        exact .inl htile
  · cases hresult

end SpanInvariant

/-! ## What a failed extension leaves -/

/-- The entries are the same, every span queue holds the same spans, and the
slice structure is intact. -/
structure ExtendUnchanged (st st' : State) (tid : ℕ) (owned : Set ℕ) :
    Prop where
  slices : st'.slices = st.slices
  others : ∀ t, t ≠ tid → st'.spans t = st.spans t
  queues : ∃ lists lists', IsFamily st.links (st.spans tid) lists ∧
    IsFamily st'.links (st'.spans tid) lists' ∧
      ∀ bin, (lists' bin).Perm (lists bin)
  intact : ∃ tiles lists, SpanInvariant st' .idle tid owned tiles lists

namespace SpanInvariant

variable {st : State} {tid : ℕ} {owned : Set ℕ}
  {tiles : ℕ → List (Tile SpanKind)} {lists : ℕ → List SlicePtr}
  {page : SlicePtr} {needSlices : ℕ}

/-- When the commit fails, the span after the page stays out of its queue
and is marked as used. -/
theorem extend_commitFails (h : SpanInvariant st .idle tid owned tiles lists)
    (howned : page.segment ∈ owned) (hhead : UsedHead st page)
    (hneed : 0 < needSlices) (hguards : ExtendGuards st page needSlices)
    (hfails : ExtendCommitFails st page needSlices) (cfg : Config) :
    (segmentTryExtendSpan cfg st tid page needSlices).1 = false ∧
      (segmentTryExtendSpan cfg st tid page needSlices).2.slices ≠
        st.slices := by
  obtain ⟨hbsize, -⟩ := h.extendTaken howned hhead hneed hguards cfg
  have hnotOk := (segmentEnsureCommitted_ok_eq_false cfg
    (st.segments page.segment) st.os page.segment _ _).mpr hfails
  rw [segmentTryExtendSpan_eq hguards]
  simp only [hnotOk, Bool.false_eq_true, if_false, true_and]
  intro hslices
  have hfree := hguards.2.1
  have hone := congrFun hslices
    ⟨page.segment, page.idx + (st.slices page).sliceCount⟩
  rw [← hone] at hfree
  exact absurd (hbsize.symm.trans hfree) (by decide)

/-- A failed extension changes nothing exactly when it does not fail in the
commit. -/
theorem extend_unchanged_iff
    (h : SpanInvariant st .idle tid owned tiles lists)
    (howned : page.segment ∈ owned) (hhead : UsedHead st page)
    (hneed : 0 < needSlices) (cfg : Config) :
    ((segmentTryExtendSpan cfg st tid page needSlices).1 = false →
        ExtendUnchanged st
          (segmentTryExtendSpan cfg st tid page needSlices).2 tid owned) ↔
      ¬ (ExtendGuards st page needSlices ∧
        ExtendCommitFails st page needSlices) := by
  constructor
  · rintro hunchanged ⟨hguards, hfails⟩
    obtain ⟨hfalse, hslices⟩ :=
      h.extend_commitFails howned hhead hneed hguards hfails cfg
    exact hslices (hunchanged hfalse).slices
  · intro hnot hfalse
    by_cases hguards : ExtendGuards st page needSlices
    · exfalso
      have hok : ¬ ExtendCommitFails st page needSlices :=
        fun hfails => hnot ⟨hguards, hfails⟩
      rw [segmentTryExtendSpan_eq hguards] at hfalse
      simp only at hfalse
      split at hfalse
      · cases hfalse
      · next hresult =>
          apply hok
          apply (segmentEnsureCommitted_ok_eq_false cfg _ _ _ _ _).mp
          simpa using hresult
    · rw [segmentTryExtendSpan_refused hguards]
      exact ⟨rfl, fun _ _ => rfl,
        ⟨lists, lists, h.layout.queues, h.layout.queues,
          fun _ => List.Perm.refl _⟩, tiles, lists, h⟩

end SpanInvariant

/-- The page of eight slices asks for one more, and the commit fails. -/
theorem pageState_extend_not_unchanged :
    ¬ ∀ (cfg : Config) (st : State) (tid : ℕ) (owned : Set ℕ)
      (tiles : ℕ → List (Tile SpanKind)) (lists : ℕ → List SlicePtr)
      (page : SlicePtr) (needSlices : ℕ),
        SpanInvariant st .idle tid owned tiles lists →
        page.segment ∈ owned → UsedHead st page → 0 < needSlices →
        (segmentTryExtendSpan cfg st tid page needSlices).1 = false →
          ExtendUnchanged st
            (segmentTryExtendSpan cfg st tid page needSlices).2 tid
            owned := by
  intro hclaim
  obtain ⟨tiles, lists, h⟩ := pageState_invariant
  have hguards : ExtendGuards pageState ⟨1, 1⟩ 1 := by decide +kernel
  have hfails : ExtendCommitFails pageState ⟨1, 1⟩ 1 := by decide +kernel
  have howned : (⟨1, 1⟩ : SlicePtr).segment ∈ ({1} : Set ℕ) := rfl
  obtain ⟨hfalse, hslices⟩ := h.extend_commitFails howned pageState_usedHead
    Nat.one_pos hguards hfails {}
  exact hslices (hclaim {} pageState 1 {1} tiles lists ⟨1, 1⟩ 1 h howned
    pageState_usedHead Nat.one_pos hfalse).slices

theorem pageState_extend_unchanged_iff :
    ((segmentTryExtendSpan {} pageState 1 ⟨1, 1⟩ 1).1 = false →
        ExtendUnchanged pageState
          (segmentTryExtendSpan {} pageState 1 ⟨1, 1⟩ 1).2 1 {1}) ↔
      ¬ (ExtendGuards pageState ⟨1, 1⟩ 1 ∧
        ExtendCommitFails pageState ⟨1, 1⟩ 1) := by
  obtain ⟨tiles, lists, h⟩ := pageState_invariant
  have howned : (⟨1, 1⟩ : SlicePtr).segment ∈ ({1} : Set ℕ) := rfl
  exact h.extend_unchanged_iff howned pageState_usedHead Nat.one_pos {}

end Palloc
