import Palloc.SegmentPurgeInvariant

/-!
# The search for a span

A span is queued by the bin of its length.  The bins are logarithmic and
cover ranges of lengths, so the first queue that is searched may hold spans
that are too short, and no queue before it holds one that is long enough.
The search therefore finds a suitable span in the lowest possible bin, and
the page cut from it leaves the remainder in the queues.
-/

namespace Palloc

open LinkedQueue IntervalTiling

/-! ## Bins -/

theorem sliceBin_of_le {m : ℕ} (hm : m ≤ 8) : sliceBin m = m := by
  have hall : ∀ i : Fin 9, sliceBin i = i := by decide
  exact hall ⟨m, by omega⟩

theorem sliceBin_of_log2 {m s : ℕ} (hs : Nat.log2 m = s) (hlarge : 3 ≤ s) :
    sliceBin (m + 1) = 4 * s + m / 2 ^ (s - 2) - 8 ∧
      4 ≤ m / 2 ^ (s - 2) ∧ m / 2 ^ (s - 2) < 8 := by
  have hm : m ≠ 0 := by
    rintro rfl
    simp at hs
    omega
  have hlow : 2 ^ s ≤ m := by
    rw [← hs]
    exact Nat.log2_self_le hm
  have hhigh : m < 2 ^ s * 2 := by
    rw [← Nat.pow_succ, ← hs]
    exact Nat.lt_log2_self
  have hquarter : (2 : ℕ) ^ s = 4 * 2 ^ (s - 2) := by
    conv_lhs => rw [show s = 2 + (s - 2) by omega]
    rw [Nat.pow_add]
  have hpos : 0 < 2 ^ (s - 2) := Nat.two_pow_pos _
  have hfour : 4 ≤ m / 2 ^ (s - 2) := by
    rw [Nat.le_div_iff_mul_le hpos]
    omega
  have height : m / 2 ^ (s - 2) < 8 := by
    rw [Nat.div_lt_iff_lt_mul hpos]
    omega
  have hor : s <<< 2 ||| m / 2 ^ (s - 2) % 4 =
      s <<< 2 + m / 2 ^ (s - 2) % 4 :=
    (Nat.shiftLeft_add_eq_or_of_lt (by omega) s).symm
  have hbin : sliceBin (m + 1) =
      (s <<< 2 ||| m / 2 ^ (s - 2) % 4) - 4 := by
    unfold sliceBin
    rw [if_neg (by omega)]
    simp only [Nat.add_sub_cancel, hs]
    rw [if_neg (by omega), Nat.shiftRight_eq_div_pow,
      show (3 : ℕ) = 2 ^ 2 - 1 by rfl, Nat.and_two_pow_sub_one_eq_mod]
  refine ⟨?_, hfour, height⟩
  rw [hbin, hor, Nat.shiftLeft_eq]
  omega

theorem sliceBin_mono {m n : ℕ} (hle : m ≤ n) : sliceBin m ≤ sliceBin n := by
  by_cases hn : n ≤ 8
  · rw [sliceBin_of_le hn, sliceBin_of_le (by omega)]
    exact hle
  · obtain ⟨n, rfl⟩ : ∃ k, n = k + 1 := ⟨n - 1, by omega⟩
    have hlogn : 3 ≤ Nat.log2 n := by
      rw [Nat.le_log2 (by omega)]
      omega
    obtain ⟨hbinn, hfourn, -⟩ := sliceBin_of_log2 rfl hlogn
    by_cases hm : m ≤ 8
    · rw [sliceBin_of_le hm, hbinn]
      omega
    · obtain ⟨m, rfl⟩ : ∃ k, m = k + 1 := ⟨m - 1, by omega⟩
      have hlogm : 3 ≤ Nat.log2 m := by
        rw [Nat.le_log2 (by omega)]
        omega
      obtain ⟨hbinm, -, heightm⟩ := sliceBin_of_log2 rfl hlogm
      have hlog : Nat.log2 m ≤ Nat.log2 n := by
        rw [Nat.le_log2 (by omega)]
        exact (Nat.log2_self_le (by omega)).trans (by omega)
      rcases Nat.eq_or_lt_of_le hlog with heq | hlt
      · have hdiv : m / 2 ^ (Nat.log2 n - 2) ≤ n / 2 ^ (Nat.log2 n - 2) :=
          Nat.div_le_div_right (by omega)
        rw [heq] at hbinm
        omega
      · omega

/-! ## The search -/

def Suits (st : State) (sliceCount reqArenaId : ℕ) (slice : SlicePtr) :
    Prop :=
  sliceCount ≤ (st.slices slice).sliceCount ∧
    arenaMemidIsSuitable (st.segments slice.segment).memid reqArenaId

instance (st : State) (sliceCount reqArenaId : ℕ) (slice : SlicePtr) :
    Decidable (Suits st sliceCount reqArenaId slice) :=
  inferInstanceAs (Decidable (_ ∧ _))

section Search

variable {st : State} {sliceCount reqArenaId : ℕ}

/-- The search in one queue returns the first span it accepts. -/
theorem findInQueue_eq (sliceCount reqArenaId : ℕ)
    {before : Option SlicePtr} {l : List SlicePtr}
    (hlinked : Linked st.links before l none) {fuel : ℕ}
    (hfuel : l.length ≤ fuel) :
    findInQueue st sliceCount reqArenaId fuel l.head? =
      some (l.find? fun slice =>
        decide (Suits st sliceCount reqArenaId slice)) := by
  induction l generalizing before fuel with
  | nil => exact findInQueue_none fuel
  | cons head rest ih =>
      obtain ⟨-, hnext, hrest⟩ := hlinked
      obtain ⟨fuel, rfl⟩ : ∃ k, fuel = k + 1 := by
        cases fuel with
        | zero => simp at hfuel
        | succ k => exact ⟨k, rfl⟩
      rw [List.head?_cons, findInQueue, List.find?_cons]
      by_cases hsuits : Suits st sliceCount reqArenaId head
      · rw [decide_eq_true hsuits]
        exact if_pos hsuits
      · rw [decide_eq_false hsuits, hnext, Option.or_none]
        exact (if_neg hsuits).trans (ih hrest (by simpa using hfuel))

variable {tid : ℕ} {lists : ℕ → List SlicePtr}

/-- Over the bins from `bin` on, the search returns a span of the first queue
that has one. -/
theorem findSpan_cases (sliceCount reqArenaId : ℕ)
    (hqueues : IsFamily st.links (st.spans tid) lists) {fuel bins bin : ℕ}
    (hfuel : ∀ i, bin ≤ i → i < bin + bins → (lists i).length ≤ fuel) :
    (findSpan st tid sliceCount reqArenaId fuel bins bin = some none ∧
      ∀ i, bin ≤ i → i < bin + bins → ∀ slice ∈ lists i,
        ¬ Suits st sliceCount reqArenaId slice) ∨
    ∃ found slice,
      findSpan st tid sliceCount reqArenaId fuel bins bin =
        some (some (found, slice)) ∧
      found < bin + bins ∧ slice ∈ lists found ∧
      Suits st sliceCount reqArenaId slice ∧
      ∀ i, bin ≤ i → i < found → ∀ slice ∈ lists i,
        ¬ Suits st sliceCount reqArenaId slice := by
  induction bins generalizing bin with
  | zero =>
      left
      refine ⟨rfl, ?_⟩
      intro i hlow hhigh
      omega
  | succ bins ih =>
      have hqueue := findInQueue_eq sliceCount reqArenaId
        (hqueues.queue bin).linked (hfuel bin (by omega) (by omega))
      rw [← (hqueues.queue bin).first] at hqueue
      unfold findSpan
      rw [hqueue]
      cases hfind : (lists bin).find? fun slice =>
          decide (Suits st sliceCount reqArenaId slice) with
      | some slice =>
          right
          refine ⟨bin, slice, rfl, by omega, List.mem_of_find?_eq_some hfind,
            ?_, ?_⟩
          · simpa using List.find?_some hfind
          · intro i hlow hhigh
            omega
      | none =>
          simp only
          have hbin : ∀ slice ∈ lists bin,
              ¬ Suits st sliceCount reqArenaId slice := by
            simpa using hfind
          have hsplit : ∀ i, bin ≤ i → i = bin ∨ bin + 1 ≤ i := by
            intro i hlow
            omega
          rcases @ih (bin + 1)
            (fun i hi hi' => hfuel i (by omega) (by omega)) with
            ⟨hnone, hrest⟩ | ⟨found, slice, hfound, hlt, hmem, hsuits, hrest⟩
          · left
            refine ⟨hnone, ?_⟩
            intro i hlow hhigh
            rcases hsplit i hlow with rfl | hnext
            · exact hbin
            · exact hrest i hnext (by omega)
          · right
            refine ⟨found, slice, hfound, by omega, hmem, hsuits, ?_⟩
            intro i hlow hhigh
            rcases hsplit i hlow with rfl | hnext
            · exact hbin
            · exact hrest i hnext hhigh

end Search

/-! ## The queues -/

structure QueuedSpan (st : State) (tid bin : ℕ) (slice : SlicePtr) :
    Prop where
  kind : (st.segments slice.segment).kind = .normal
  threadId : (st.segments slice.segment).threadId = tid
  count_pos : 0 < (st.slices slice).sliceCount
  fits : slice.idx + (st.slices slice).sliceCount ≤
    (st.segments slice.segment).sliceEntries
  free : FreeSpan st slice.segment slice.idx (st.slices slice).sliceCount
  bin : sliceBin (st.slices slice).sliceCount = bin

structure SpanQueues (st : State) (tid : ℕ) (lists : ℕ → List SlicePtr) :
    Prop where
  thread_ne : tid ≠ 0
  queues : IsFamily st.links (st.spans tid) lists
  spans : ∀ bin, ∀ slice ∈ lists bin, QueuedSpan st tid bin slice
  apart : ∀ bin, ∀ slice ∈ lists bin, ∀ bin', ∀ slice' ∈ lists bin',
    slice.segment = slice'.segment → slice.idx < slice'.idx →
      slice.idx + (st.slices slice).sliceCount ≤ slice'.idx

/-- The queues after the first `sliceCount` slices of a span became a page. -/
def queuesAfter (st : State) (lists : ℕ → List SlicePtr) (bin : ℕ)
    (slice : SlicePtr) (sliceCount : ℕ) : ℕ → List SlicePtr :=
  let rest := Function.update lists bin ((lists bin).erase slice)
  let left := (st.slices slice).sliceCount - sliceCount
  if 0 < left then
    Function.update rest (sliceBin left)
      (⟨slice.segment, slice.idx + sliceCount⟩ :: rest (sliceBin left))
  else rest

structure PageTaken (st st' : State) (tid : ℕ) (lists : ℕ → List SlicePtr)
    (bin : ℕ) (slice : SlicePtr) (sliceCount : ℕ) : Prop where
  page : UsedSpan st' slice.segment slice.idx sliceCount
  rest : sliceCount < (st.slices slice).sliceCount →
    FreeSpan st' slice.segment (slice.idx + sliceCount)
      ((st.slices slice).sliceCount - sliceCount)
  queues : SpanQueues st' tid (queuesAfter st lists bin slice sliceCount)

namespace SpanQueues

variable {st : State} {tid : ℕ} {lists : ℕ → List SlicePtr} {bin : ℕ}
  {slice : SlicePtr} {sliceCount : ℕ}

theorem mem_erased (h : SpanQueues st tid lists) (hslice : slice ∈ lists bin)
    {i : ℕ} {other : SlicePtr} :
    other ∈ Function.update lists bin ((lists bin).erase slice) i ↔
      other ∈ lists i ∧ other ≠ slice := by
  by_cases hi : i = bin
  · subst hi
    rw [Function.update_self, (h.queues.queue i).nodup.mem_erase_iff,
      and_comm]
  · rw [Function.update_of_ne hi]
    refine ⟨fun hother => ⟨hother, ?_⟩, fun hother => hother.1⟩
    rintro rfl
    exact hi (h.queues.disjoint i bin other hother hslice)

theorem mem_queuesAfter (h : SpanQueues st tid lists)
    (hslice : slice ∈ lists bin) {i : ℕ} {other : SlicePtr}
    (hother : other ∈ queuesAfter st lists bin slice sliceCount i) :
    (other ∈ lists i ∧ other ≠ slice) ∨
      (sliceCount < (st.slices slice).sliceCount ∧
        other = ⟨slice.segment, slice.idx + sliceCount⟩ ∧
        sliceBin ((st.slices slice).sliceCount - sliceCount) = i) := by
  unfold queuesAfter at hother
  split at hother
  · next hleft =>
      by_cases hi : i = sliceBin ((st.slices slice).sliceCount - sliceCount)
      · rw [hi, Function.update_self, List.mem_cons, h.mem_erased hslice]
          at hother
        rcases hother with hnew | hold
        · exact .inr ⟨by omega, hnew, hi.symm⟩
        · rw [hi]
          exact .inl hold
      · rw [Function.update_of_ne hi, h.mem_erased hslice] at hother
        exact .inl hother
  · exact .inl ((h.mem_erased hslice).mp hother)

theorem outside (h : SpanQueues st tid lists) (hslice : slice ∈ lists bin)
    {i : ℕ} {other : SlicePtr} (hother : other ∈ lists i)
    (hne : other ≠ slice) (hsegment : other.segment = slice.segment) :
    other.idx + (st.slices other).sliceCount ≤ slice.idx ∨
      slice.idx + (st.slices slice).sliceCount ≤ other.idx := by
  rcases Nat.lt_trichotomy other.idx slice.idx with hlt | heq | hgt
  · exact .inl (h.apart i other hother bin slice hslice hsegment hlt)
  · exact absurd (SlicePtr.ext hsegment heq) hne
  · exact .inr (h.apart bin slice hslice i other hother hsegment.symm hgt)

theorem rest_notMem (h : SpanQueues st tid lists)
    (hslice : slice ∈ lists bin) (hpos : 0 < sliceCount)
    (hlt : sliceCount < (st.slices slice).sliceCount) (i : ℕ) :
    (⟨slice.segment, slice.idx + sliceCount⟩ : SlicePtr) ∉
      Function.update lists bin ((lists bin).erase slice) i := by
  intro hmem
  obtain ⟨hlisted, hne⟩ := (h.mem_erased hslice).mp hmem
  have hcount := (h.spans i _ hlisted).count_pos
  rcases h.outside hslice hlisted hne rfl with hbefore | hafter
  · change slice.idx + sliceCount + _ ≤ slice.idx at hbefore
    omega
  · change _ ≤ slice.idx + sliceCount at hafter
    omega

/-- A change outside of a listed span keeps it. -/
theorem queued_congr (h : SpanQueues st tid lists) {st' : State} {i : ℕ}
    {other : SlicePtr} (hother : other ∈ lists i)
    (hheader : ∀ s, SameHeader (st.segments s) (st'.segments s))
    (hslices : ∀ idx, other.idx ≤ idx →
      idx < other.idx + (st.slices other).sliceCount →
        SameSpan (st.slices ⟨other.segment, idx⟩)
          (st'.slices ⟨other.segment, idx⟩)) :
    QueuedSpan st' tid i other ∧
      (st'.slices other).sliceCount = (st.slices other).sliceCount := by
  obtain ⟨hkind, hthread, hpos, hfits, hfree, hbin⟩ := h.spans i other hother
  have hhead := hslices other.idx (by omega) (by omega)
  have hcount : (st'.slices other).sliceCount =
      (st.slices other).sliceCount := hhead.sliceCount
  have hspan : SpanEntry st' other.segment ⟨other.idx,
      (st.slices other).sliceCount, .free⟩ :=
    SpanEntry.congr (SpanEntry.free hfree rfl) hpos
    (fun idx hlow hhigh => hslices idx hlow hhigh)
  refine ⟨⟨?_, ?_, ?_, ?_, ?_, ?_⟩, hcount⟩
  · rw [(hheader _).kind]
    exact hkind
  · rw [(hheader _).threadId]
    exact hthread
  · omega
  · rw [hcount, (hheader _).sliceEntries]
    exact hfits
  · rw [hcount]
    exact hspan
  · rw [hcount]
    exact hbin

structure SpanCut (st st' : State) (tid : ℕ) (lists : ℕ → List SlicePtr)
    (bin : ℕ) (slice : SlicePtr) (sliceCount : ℕ) : Prop where
  segments : st'.segments = st.segments
  os : st'.os = st.os
  head : (st'.slices slice).sliceCount = sliceCount
  rest : sliceCount < (st.slices slice).sliceCount →
    FreeSpan st' slice.segment (slice.idx + sliceCount)
      ((st.slices slice).sliceCount - sliceCount)
  queues : IsFamily st'.links (st'.spans tid)
    (queuesAfter st lists bin slice sliceCount)
  frame : ∀ other : SlicePtr, (other.segment = slice.segment →
    other.idx < slice.idx ∨
      slice.idx + (st.slices slice).sliceCount ≤ other.idx) →
        SameSpan (st.slices other) (st'.slices other)

theorem cut (h : SpanQueues st tid lists) (hslice : slice ∈ lists bin)
    (cfg : Config) (hpos : 0 < sliceCount)
    (hle : sliceCount ≤ (st.slices slice).sliceCount) :
    let st₁ := spanQueueDelete st tid bin slice
    SpanCut st (if sliceCount < (st₁.slices slice).sliceCount then
      segmentSliceSplit cfg st₁ tid slice sliceCount
    else st₁) tid lists bin slice sliceCount := by
  intro st₁
  obtain ⟨hkind, hthread, hcount, hfits, -, -⟩ := h.spans bin slice hslice
  obtain ⟨hhead, -, -⟩ := spanQueueDelete_head st tid bin slice
  have hfamily : IsFamily st₁.links (st₁.spans tid)
      (Function.update lists bin ((lists bin).erase slice)) := by
    have hdelete := h.queues.delete hslice
    rw [show st₁.spans tid = Function.update (st.spans tid) bin
      (deleteEnds st.links (st.spans tid bin) slice) from
        Function.update_self tid _ _]
    exact hdelete
  have hout : ∀ other : SlicePtr, (other.segment = slice.segment →
      other.idx < slice.idx ∨
        slice.idx + (st.slices slice).sliceCount ≤ other.idx) →
      other ≠ slice := by
    rintro other hother rfl
    have hcase := hother rfl
    omega
  rw [show (st₁.slices slice).sliceCount = (st.slices slice).sliceCount
    from hhead]
  by_cases hlt : sliceCount < (st.slices slice).sliceCount
  · rw [if_pos hlt]
    set left := (st.slices slice).sliceCount - sliceCount with hleft
    have hfreed := @segmentSpanFree_spec cfg st₁ tid slice.segment
      (slice.idx + sliceCount) left false hkind
      (by
        rw [show (st₁.segments slice.segment).threadId = tid from hthread]
        exact h.thread_ne) (by omega)
      (show slice.idx + sliceCount + left ≤
        (st.segments slice.segment).sliceEntries by omega)
    obtain ⟨hsegments, hos⟩ := segmentSpanFree_unpurged cfg st₁ tid
      slice.segment (slice.idx + sliceCount) left
    set st₂ := segmentSpanFree cfg st₁ tid slice.segment
      (slice.idx + sliceCount) left false with hst₂
    have hsplit : segmentSliceSplit cfg st₁ tid slice sliceCount =
        st₂.setSlice slice ((st₂.slices slice).withSpan sliceCount
          (st₂.slices slice).sliceOffset (st₂.slices slice).blockSize) := by
      unfold segmentSliceSplit
      simp only
      rw [hhead, if_neg (by omega), ← hleft]
    have hafter : queuesAfter st lists bin slice sliceCount =
        Function.update
          (Function.update lists bin ((lists bin).erase slice))
          (sliceBin left) (⟨slice.segment, slice.idx + sliceCount⟩ ::
            Function.update lists bin ((lists bin).erase slice)
              (sliceBin left)) := by
      unfold queuesAfter
      exact if_pos (by omega)
    rw [hsplit]
    refine ⟨hsegments, hos, by simp, ?_, ?_, ?_⟩
    · intro _
      have hspan : SpanEntry (st₂.setSlice slice
          ((st₂.slices slice).withSpan sliceCount
            (st₂.slices slice).sliceOffset (st₂.slices slice).blockSize))
          slice.segment ⟨slice.idx + sliceCount, left, .free⟩ :=
        SpanEntry.congr (SpanEntry.free hfreed.span rfl)
        (show 0 < left by omega)
        (fun idx hlow _ => by
          have hne : (⟨slice.segment, idx⟩ : SlicePtr) ≠ slice := by
            intro heq
            have hidx : idx = slice.idx := congrArg SlicePtr.idx heq
            simp only at hlow
            omega
          rw [State.setSlice_ne _ _ hne]
          exact .refl _)
      exact hspan
    · rw [hafter, State.setSlice_links, State.setSlice_spans, hfreed.links,
        hfreed.spans, Function.update_self]
      exact hfamily.push (sliceBin left)
        (fun i => h.rest_notMem hslice hpos hlt i)
    · intro other hother
      have hne := hout other hother
      rw [State.setSlice_ne _ _ hne]
      have hframe := hfreed.frame other
        (by
          rintro rfl
          have hcase := hother rfl
          simp only at hcase
          omega)
        (by
          rintro rfl
          have hcase := hother rfl
          simp only at hcase
          omega)
      rwa [show st₁.slices other = st.slices other from
        spanQueueDelete_frame st tid bin hne] at hframe
  · rw [if_neg hlt]
    have hafter : queuesAfter st lists bin slice sliceCount =
        Function.update lists bin ((lists bin).erase slice) := by
      unfold queuesAfter
      exact if_neg (by omega)
    refine ⟨rfl, rfl, by rw [hhead]; omega, fun hrest => absurd hrest hlt,
      ?_, ?_⟩
    · rw [hafter]
      exact hfamily
    · intro other hother
      rw [show st₁.slices other = st.slices other from
        spanQueueDelete_frame st tid bin (hout other hother)]
      exact .refl _

/-- The cut span becomes a page. -/
theorem pageTaken (h : SpanQueues st tid lists) (hslice : slice ∈ lists bin)
    {st₂ : State} (hcut : SpanCut st st₂ tid lists bin slice sliceCount)
    (hpos : 0 < sliceCount)
    (hle : sliceCount ≤ (st.slices slice).sliceCount)
    (commit : CommitState × Os) (isZeroInit : Bool) (used : ℕ) :
    let st₃ := (st₂.setCommit slice.segment commit).setUsedSpan
      slice.segment slice.idx sliceCount isZeroInit
    PageTaken st (st₃.setSegment slice.segment
      ((st₃.segments slice.segment).withUsed used)) tid lists bin slice
      sliceCount := by
  intro st₃
  have hfits := (h.spans bin slice hslice).fits
  have hcommit : OnlyCommit st₂ (st₂.setCommit slice.segment commit) :=
    onlyCommit_setCommit _ _ _
  have hheader₂ : ∀ s, SameHeader (st.segments s)
      ((st₂.setCommit slice.segment commit).segments s) := by
    intro s
    rw [← hcut.segments]
    exact hcommit.header s
  obtain ⟨hpage, hsegments, hlinks, hspans, -, hframe⟩ :=
    setUsedSpan_spec isZeroInit hpos
      (show slice.idx + sliceCount ≤
        ((st₂.setCommit slice.segment commit).segments
          slice.segment).sliceEntries by
        rw [(hheader₂ slice.segment).sliceEntries]
        omega)
  set st' := st₃.setSegment slice.segment
    ((st₃.segments slice.segment).withUsed used) with hst'
  have hheader : ∀ s, SameHeader (st.segments s) (st'.segments s) := by
    intro s
    refine (hheader₂ s).trans ?_
    rw [← hsegments]
    by_cases hs : s = slice.segment
    · subst hs
      rw [hst', State.setSegment_self]
      exact ⟨rfl, rfl, rfl⟩
    · rw [hst', State.setSegment_ne _ _ hs]
      exact .refl _
  have hsame : ∀ other : SlicePtr, (other.segment = slice.segment →
      other.idx < slice.idx ∨
        slice.idx + (st.slices slice).sliceCount ≤ other.idx) →
      SameSpan (st.slices other) (st'.slices other) := by
    intro other hother
    refine (hcut.frame other hother).trans ?_
    have heq : st'.slices other = st₂.slices other :=
      hframe other (fun hsegment => by have := hother hsegment; omega)
    rw [heq]
    exact .refl _
  have hrest : sliceCount < (st.slices slice).sliceCount →
      FreeSpan st' slice.segment (slice.idx + sliceCount)
        ((st.slices slice).sliceCount - sliceCount) := by
    intro hlt
    have hspan : SpanEntry st' slice.segment ⟨slice.idx + sliceCount,
        (st.slices slice).sliceCount - sliceCount, .free⟩ :=
      SpanEntry.congr (SpanEntry.free (hcut.rest hlt) rfl)
      (show 0 < (st.slices slice).sliceCount - sliceCount by omega)
      (fun idx hlow _ => by
        have heq : st'.slices ⟨slice.segment, idx⟩ =
            st₂.slices ⟨slice.segment, idx⟩ :=
          hframe ⟨slice.segment, idx⟩ (fun _ => .inr hlow)
        rw [heq]
        exact .refl _)
    exact hspan
  have hkeep : ∀ i, ∀ other ∈ lists i, other ≠ slice →
      QueuedSpan st' tid i other ∧
        (st'.slices other).sliceCount = (st.slices other).sliceCount := by
    intro i other hother hne
    have hcount := (h.spans i other hother).count_pos
    apply h.queued_congr hother hheader
    intro idx hlow hhigh
    apply hsame ⟨other.segment, idx⟩
    intro hsegment
    rcases h.outside hslice hother hne hsegment with hbefore | hafter
    · exact .inl (show idx < slice.idx by omega)
    · exact .inr (show _ ≤ idx by omega)
  refine ⟨?_, hrest, ?_, ?_, ?_, ?_⟩
  · exact ⟨hpage.sliceCount, hpage.sliceOffset, hpage.blockSize_pos,
      hpage.back⟩
  · exact h.thread_ne
  · have hqueues := hcut.queues
    rw [← show st'.links = st₂.links from hlinks,
      ← show st'.spans = st₂.spans from hspans] at hqueues
    exact hqueues
  · intro i other hother
    rcases h.mem_queuesAfter hslice hother with ⟨hlisted, hne⟩ |
      ⟨hlt, rfl, hbin⟩
    · exact (hkeep i other hlisted hne).1
    · have hcount := (hrest hlt).sliceCount
      have hspan := h.spans bin slice hslice
      refine ⟨?_, ?_, ?_, ?_, ?_, ?_⟩
      · rw [(hheader slice.segment).kind]
        exact hspan.kind
      · rw [(hheader slice.segment).threadId]
        exact hspan.threadId
      · rw [hcount]
        omega
      · rw [hcount, (hheader slice.segment).sliceEntries]
        change slice.idx + sliceCount + _ ≤ _
        omega
      · rw [hcount]
        exact hrest hlt
      · rw [hcount]
        exact hbin
  · intro i other hother i' other' hother' hsegment hidx
    rcases h.mem_queuesAfter hslice hother with ⟨hlisted, hne⟩ |
      ⟨hlt, rfl, -⟩
    · rw [(hkeep i other hlisted hne).2]
      rcases h.mem_queuesAfter hslice hother' with ⟨hlisted', -⟩ |
        ⟨hlt, rfl, -⟩
      · exact h.apart i other hlisted i' other' hlisted' hsegment hidx
      · change other.idx < slice.idx + sliceCount at hidx
        change _ ≤ slice.idx + sliceCount
        rcases h.outside hslice hlisted hne hsegment with hout | hout
        · omega
        · omega
    · rw [(hrest hlt).sliceCount]
      change slice.idx + sliceCount < other'.idx at hidx
      change slice.idx + sliceCount + _ ≤ other'.idx
      rcases h.mem_queuesAfter hslice hother' with ⟨hlisted', hne'⟩ |
        ⟨-, rfl, -⟩
      · have hout := h.outside hslice hlisted' hne' hsegment.symm
        omega
      · exact absurd hidx (lt_irrefl _)

end SpanQueues

/-! ## The result of the search -/

structure LowestSuitable (st : State) (lists : ℕ → List SlicePtr)
    (sliceCount reqArenaId bin : ℕ) (slice : SlicePtr) : Prop where
  bin_le : bin ≤ segmentBinMax
  listed : slice ∈ lists bin
  suits : Suits st sliceCount reqArenaId slice
  lowest : ∀ lower, lower < bin → ∀ other ∈ lists lower,
    ¬ Suits st sliceCount reqArenaId other

/-- The commit of the first slices of a span succeeds. -/
def CommitSucceeds (cfg : Config) (st : State) (slice : SlicePtr)
    (sliceCount : ℕ) : Bool :=
  (segmentEnsureCommitted cfg (st.segments slice.segment) st.os
    slice.segment slice.start (sliceCount * segmentSliceSize)).ok

/-- What a search for `sliceCount` slices may return. -/
inductive SearchResult (cfg : Config) (st : State) (tid : ℕ)
    (lists : ℕ → List SlicePtr) (sliceCount reqArenaId : ℕ) :
    Option SlicePtr → State → Prop where
  | nothing
      (hnone : ∀ bin, bin ≤ segmentBinMax → ∀ slice ∈ lists bin,
        ¬ Suits st sliceCount reqArenaId slice) :
      SearchResult cfg st tid lists sliceCount reqArenaId none st
  | uncommitted {bin : ℕ} {slice : SlicePtr} {st' : State}
      (hslice : LowestSuitable st lists sliceCount reqArenaId bin slice)
      (hcommit : CommitSucceeds cfg st slice sliceCount = false) :
      SearchResult cfg st tid lists sliceCount reqArenaId none st'
  | taken {bin : ℕ} {slice : SlicePtr} {st' : State}
      (hslice : LowestSuitable st lists sliceCount reqArenaId bin slice)
      (hcommit : CommitSucceeds cfg st slice sliceCount = true)
      (htaken : PageTaken st st' tid lists bin slice sliceCount) :
      SearchResult cfg st tid lists sliceCount reqArenaId (some slice) st'

namespace SpanQueues

variable {st : State} {tid : ℕ} {lists : ℕ → List SlicePtr}

/-- `pa_segments_page_find_and_allocate` after a span is found: its page, or
nothing when the commit fails. -/
theorem allocateFound (h : SpanQueues st tid lists) (cfg : Config)
    {bin : ℕ} {slice : SlicePtr} {sliceCount reqArenaId : ℕ}
    (hslice : LowestSuitable st lists sliceCount reqArenaId bin slice)
    (hpos : 0 < sliceCount) :
    SearchResult cfg st tid lists sliceCount reqArenaId
      (allocateFound cfg st tid bin slice sliceCount).1
      (allocateFound cfg st tid bin slice sliceCount).2 := by
  have hcut := h.cut hslice.listed cfg hpos hslice.suits.1
  simp only at hcut
  set st₂ := if sliceCount <
      ((spanQueueDelete st tid bin slice).slices slice).sliceCount then
    segmentSliceSplit cfg (spanQueueDelete st tid bin slice) tid slice
      sliceCount
    else spanQueueDelete st tid bin slice with hst₂
  have hresult : Palloc.allocateFound cfg st tid bin slice sliceCount =
      (if (segmentSpanAllocate cfg st₂ slice.segment slice.idx
          sliceCount).1 then
        (some slice, (segmentSpanAllocate cfg st₂ slice.segment slice.idx
          sliceCount).2)
      else (none, (segmentSpanFreeCoalesce cfg (segmentSpanAllocate cfg st₂
        slice.segment slice.idx sliceCount).2 tid slice).2)) := by
    unfold Palloc.allocateFound
    simp only
    rw [← hst₂, hcut.head]
  have hok : (segmentSpanAllocate cfg st₂ slice.segment slice.idx
      sliceCount).1 = CommitSucceeds cfg st slice sliceCount := by
    have hallocate := (segmentSpanAllocate_segments cfg st₂ slice.segment
      slice.idx sliceCount).1
    rw [hcut.segments, hcut.os] at hallocate
    exact hallocate
  rw [hresult, hok]
  cases hcommit : CommitSucceeds cfg st slice sliceCount with
  | false => exact .uncommitted hslice hcommit
  | true =>
      obtain ⟨commit, zero, hcases⟩ := segmentSpanAllocate_cases cfg st₂
        slice.segment slice.idx sliceCount
      rcases hcases with hfailed | hdone
      · rw [hcommit, hfailed] at hok
        cases hok
      · rw [if_pos rfl, hdone]
        exact .taken hslice hcommit (h.pageTaken hslice.listed hcut hpos
          hslice.suits.1 commit zero _)

end SpanQueues

/-- For every number of slices and whatever the operating system answers, the
search ends.  It finds nothing and changes nothing when no queue has a
suitable span.  Else it takes one from the lowest bin that has one, and
fails only when this span cannot be committed: the page has exactly the
requested slices, and the remainder is queued as a free span. -/
theorem span_search_best_bin (cfg : Config) {st : State} {tid : ℕ}
    {lists : ℕ → List SlicePtr} (hqueues : SpanQueues st tid lists)
    (sliceCount reqArenaId fuel : ℕ)
    (hfuel : ∀ bin, bin ≤ segmentBinMax → (lists bin).length ≤ fuel) :
    ∃ result st', segmentsPageFindAndAllocate cfg fuel st tid sliceCount
      reqArenaId = some (result, st') ∧
    SearchResult cfg st tid lists (if sliceCount = 0 then 1 else sliceCount)
      reqArenaId result st' := by
  set n := if sliceCount = 0 then 1 else sliceCount with hn
  have hpos : 0 < n := by
    rw [hn]
    split <;> omega
  -- no suitable span is in a bin before the first one searched
  have hlow : ∀ bin, bin < sliceBin sliceCount → ∀ slice ∈ lists bin,
      ¬ Suits st n reqArenaId slice := by
    intro bin hbin slice hslice hsuits
    have hle : sliceCount ≤ (st.slices slice).sliceCount := by
      have hfits := hsuits.1
      rw [hn] at hfits
      split at hfits <;> omega
    have hmono := sliceBin_mono hle
    have heq := (hqueues.spans bin slice hslice).bin
    omega
  have hsearch := @findSpan_cases _ _ _ n reqArenaId hqueues.queues fuel
    (segmentBinMax + 1 - sliceBin sliceCount) (sliceBin sliceCount)
    (fun i hi hi' => hfuel i (by omega))
  unfold segmentsPageFindAndAllocate
  simp only [← hn]
  rcases hsearch with ⟨hnone, hall⟩ |
    ⟨bin, slice, hfound, hlt, hslice, hsuits, hbefore⟩
  · refine ⟨none, st, by rw [hnone], .nothing ?_⟩
    intro bin hbin
    rcases Nat.lt_or_ge bin (sliceBin sliceCount) with hfirst | hfirst
    · exact hlow bin hfirst
    · exact hall bin hfirst (by omega)
  · have hmin : sliceBin sliceCount ≤ bin := by
      by_contra hlower
      exact hlow bin (by omega) slice hslice hsuits
    have hlowest : LowestSuitable st lists n reqArenaId bin slice := by
      refine ⟨by omega, hslice, hsuits, ?_⟩
      intro lower hlower
      rcases Nat.lt_or_ge lower (sliceBin sliceCount) with hfirst | hfirst
      · exact hlow lower hfirst
      · exact hbefore lower hfirst hlower
    exact ⟨_, _, by rw [hfound], hqueues.allocateFound cfg hlowest hpos⟩

theorem SpanInvariant.spanQueues {st : State} {tid : ℕ} {owned : Set ℕ}
    {tiles : ℕ → List (Tile SpanKind)} {lists : ℕ → List SlicePtr}
    (h : SpanInvariant st .idle tid owned tiles lists) :
    SpanQueues st tid lists := by
  refine ⟨h.layout.thread_ne, h.layout.queues, ?_, ?_⟩
  · intro bin slice hslice
    obtain ⟨howned, tile, htile, hstart, hfree, hbin⟩ :=
      (h.layout.mem_queue bin slice).mp hslice
    have hspan := (h.layout.entry _ howned tile htile).free hfree
    have hstop := h.layout.stop_le howned htile
    have hcount := hspan.sliceCount
    rw [hstart] at hspan hcount
    refine ⟨h.layout.kind _ howned, h.layout.threadId _ howned, ?_, ?_, ?_,
      ?_⟩
    · rw [hcount]
      exact h.layout.count_pos howned htile
    · rw [hcount, ← hstart]
      exact hstop
    · rw [hcount]
      exact hspan
    · rw [hcount]
      exact hbin
  · intro bin slice hslice bin' slice' hslice' hsegment hlt
    obtain ⟨howned, tile, htile, hstart, hfree, -⟩ :=
      (h.layout.mem_queue bin slice).mp hslice
    obtain ⟨-, tile', htile', hstart', hfree', -⟩ :=
      (h.layout.mem_queue bin' slice').mp hslice'
    have hcount := ((h.layout.entry _ howned tile htile).free
      hfree).sliceCount
    rw [hstart] at hcount
    rw [hcount, ← hstart, ← hstart']
    by_contra hover
    rw [← hsegment] at htile'
    have heq := (h.layout.tiled _ howned).eq_of_index htile htile'
      (show tile.start ≤ tile'.start ∧ tile'.start < tile.stop from
        ⟨by omega, by simp only [Tile.stop]; omega⟩)
      ⟨le_rfl, by
        have hpos := h.layout.count_pos howned htile'
        simp only [Tile.stop]
        omega⟩
    rw [heq] at hstart
    omega

/-- A search for eight slices in the first segment. -/
theorem span_search_best_bin_first :
    ∃ lists fuel result st', SpanQueues firstState 1 lists ∧
      segmentsPageFindAndAllocate {} fuel firstState 1 8 0 =
        some (result, st') ∧
      SearchResult {} firstState 1 lists 8 0 result st' := by
  obtain ⟨tiles, lists, h⟩ := firstState_invariant
  have hfuel : ∀ bin, bin ≤ segmentBinMax → (lists bin).length ≤
      (Finset.range (segmentBinMax + 1)).sup fun i => (lists i).length := by
    intro bin hbin
    exact Finset.le_sup (f := fun i => (lists i).length)
      (Finset.mem_range.mpr (by omega))
  obtain ⟨result, st', hresult, hsearch⟩ :=
    span_search_best_bin {} h.spanQueues 8 0 _ hfuel
  exact ⟨lists, _, result, st', h.spanQueues, hresult, hsearch⟩

end Palloc
