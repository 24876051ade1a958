import Palloc.AbandonedInvariant
import Mathlib.Data.List.Range

/-!
# What a cursor has still to visit

The segments ahead of a cursor form a list: the marks of its sub-process in
the rest of the current arena and in the arenas that follow, and the entries
of the list that were there when the cursor began.  Asking for the next segment
takes the first one off this list; marking it again puts it behind.
-/

namespace Palloc

open BitFields LinkedQueue

/-! ## The first place in an interval -/

/-- The result of a search for the first number that satisfies `p`. -/
def FirstIn (p : ℕ → Bool) (lo hi : ℕ) : Option ℕ → Prop
  | none => ∀ c, lo ≤ c → c < hi → p c = false
  | some b => lo ≤ b ∧ b < hi ∧ p b = true ∧ ∀ c, lo ≤ c → c < b → p c = false

theorem FirstIn.skip {p : ℕ → Bool} {lo mid hi : ℕ} {result : Option ℕ}
    (hnone : FirstIn p lo mid none) (h : FirstIn p mid hi result)
    (hle : lo ≤ mid) : FirstIn p lo hi result := by
  have hbefore : ∀ c, lo ≤ c → c < mid → p c = false := hnone
  cases result with
  | none =>
      intro c hlo hhi
      by_cases hmid : c < mid
      · exact hbefore c hlo hmid
      · exact h c (not_lt.mp hmid) hhi
  | some b =>
      obtain ⟨hmid, hhi, hp, hfirst⟩ := h
      refine ⟨hle.trans hmid, hhi, hp, ?_⟩
      intro c hlo hc
      by_cases hmid' : c < mid
      · exact hbefore c hlo hmid'
      · exact hfirst c (not_lt.mp hmid') hc

theorem FirstIn.widen {p : ℕ → Bool} {lo mid hi b : ℕ}
    (h : FirstIn p lo mid (some b)) (hle : mid ≤ hi) :
    FirstIn p lo hi (some b) :=
  ⟨h.1, lt_of_lt_of_le h.2.1 hle, h.2.2⟩

theorem FirstIn.shift {p : ℕ → Bool} {lo hi n : ℕ} {result : Option ℕ}
    (h : FirstIn (fun c => p (n + c)) lo hi result) :
    FirstIn p (n + lo) (n + hi) (result.map (n + ·)) := by
  have hback : ∀ c, n + lo ≤ c → c = n + (c - n) := by
    intro c hc
    omega
  cases result with
  | none =>
      intro c hlo hhi
      rw [hback c hlo]
      exact h (c - n) (by omega) (by omega)
  | some b =>
      obtain ⟨hlo, hhi, hp, hfirst⟩ := h
      refine ⟨Nat.add_le_add_left hlo n, Nat.add_lt_add_left hhi n, hp, ?_⟩
      intro c hlo' hc
      have hlt : c < n + b := hc
      rw [hback c hlo']
      exact hfirst (c - n) (by omega) (by omega)

theorem FirstIn.filter_none {p : ℕ → Bool} {lo hi : ℕ}
    (h : FirstIn p lo hi none) :
    (List.range' lo (hi - lo)).filter p = [] := by
  rw [List.filter_eq_nil_iff]
  intro c hc
  rw [List.mem_range'_1] at hc
  rw [h c hc.1 (by omega)]
  exact Bool.false_ne_true

theorem FirstIn.filter_some {p : ℕ → Bool} {lo hi b : ℕ}
    (h : FirstIn p lo hi (some b)) :
    (List.range' lo (hi - lo)).filter p =
      b :: (List.range' (b + 1) (hi - (b + 1))).filter p := by
  obtain ⟨hlo, hhi, hp, hfirst⟩ := h
  have hsplit : List.range' lo (hi - lo) =
      List.range' lo (b - lo) ++ b :: List.range' (b + 1) (hi - (b + 1)) := by
    have hlength : hi - lo = b - lo + (hi - (b + 1) + 1) := by omega
    rw [hlength, ← List.range'_append_1, Nat.add_sub_cancel' hlo,
      List.range'_succ]
  have hnil : (List.range' lo (b - lo)).filter p = [] :=
    FirstIn.filter_none hfirst
  rw [hsplit, List.filter_append, hnil, List.nil_append,
    List.filter_cons_of_pos hp]

/-! ## The loops over the bitmaps -/

section Loops

variable {st : AbandonState} {arenaIdx subproc : ℕ}

theorem clearAbandonedAt_fst (b : ℕ) :
    (st.clearAbandonedAt arenaIdx subproc b).1 =
      st.mine subproc (arenaIdx, b) := by
  unfold AbandonState.clearAbandonedAt AbandonState.mine
  dsimp only
  rw [unclaim_one]
  cases bit (st.blocksAbandoned arenaIdx) b with
  | false => rfl
  | true =>
      by_cases hsubproc : st.subproc (.arena arenaIdx b) = subproc
      · simp [hsubproc]
      · simp [hsubproc]

theorem and_bit_eq_iff {map : Fields} (field : ℕ) {k : ℕ} (hk : k < 64) :
    map field &&& 1#64 <<< k = 1#64 <<< k ↔
      bit map (64 * field + k) = true := by
  have hones : 1#64 <<< k = ones 1 k := by simp [ones]
  have hfull := @and_ones_eq_iff map field 1 k hk
  rw [hones, hfull]
  constructor
  · exact fun h => h _ le_rfl (Nat.lt_succ_self _)
  · intro h c hlo hhi
    have hc : c = 64 * field + k := by omega
    rw [hc]
    exact h

def clearedAfter (st : AbandonState) (arenaIdx subproc : ℕ) :
    Option ℕ → AbandonState
  | none => st
  | some b => (st.clearAbandonedAt arenaIdx subproc b).2

theorem visitBits_first {fieldIdx left : ℕ} {field : BitVec 64}
    (hfield : field = st.blocksAbandoned arenaIdx fieldIdx)
    (hleft : left ≤ 64) :
    ∃ result,
      st.visitBits arenaIdx subproc fieldIdx field left =
        (result, clearedAfter st arenaIdx subproc
          (result.map (64 * fieldIdx + ·))) ∧
      FirstIn (fun c => st.mine subproc (arenaIdx, 64 * fieldIdx + c))
        (64 - left) 64 result := by
  induction left with
  | zero =>
      refine ⟨none, rfl, ?_⟩
      intro c hlo hhi
      omega
  | succ left ih =>
      obtain ⟨result, hresult, hfirst⟩ := ih (by omega)
      have hlt : 64 - (left + 1) < 64 := by omega
      have hbits : field &&& 1#64 <<< (64 - (left + 1)) =
          1#64 <<< (64 - (left + 1)) ↔
          bit (st.blocksAbandoned arenaIdx)
            (64 * fieldIdx + (64 - (left + 1))) = true := by
        rw [hfield]
        exact and_bit_eq_iff _ hlt
      have hnext : 64 - (left + 1) + 1 = 64 - left := by omega
      cases hmine : st.mine subproc
          (arenaIdx, 64 * fieldIdx + (64 - (left + 1))) with
      | true =>
          refine ⟨some (64 - (left + 1)), ?_, le_rfl, hlt, hmine, ?_⟩
          · have hbit := ((Bool.and_eq_true _ _).mp hmine).1
            unfold AbandonState.visitBits
            dsimp only
            rw [if_pos (hbits.mpr hbit), clearAbandonedAt_fst, hmine,
              if_pos rfl]
            rfl
          · intro c hlo hhi
            omega
      | false =>
          refine ⟨result, ?_, ?_⟩
          · unfold AbandonState.visitBits
            dsimp only
            rw [clearAbandonedAt_of_not_mine hmine, if_neg Bool.false_ne_true,
              ite_self]
            exact hresult
          · have hskip : FirstIn
                (fun c => st.mine subproc (arenaIdx, 64 * fieldIdx + c))
                (64 - (left + 1)) (64 - left) none := by
              intro c hlo hhi
              have hc : c = 64 - (left + 1) := by omega
              rw [hc]
              exact hmine
            exact hskip.skip hfirst (by omega)

theorem visitFields_first {left fieldIdx bitIdx : ℕ} (hbit : bitIdx < 64) :
    ∃ result,
      st.visitFields arenaIdx subproc left fieldIdx bitIdx =
        (result, clearedAfter st arenaIdx subproc result) ∧
      FirstIn (fun c => st.mine subproc (arenaIdx, c))
        (64 * fieldIdx + bitIdx) (64 * (fieldIdx + left)) result := by
  induction left generalizing fieldIdx bitIdx with
  | zero =>
      refine ⟨none, rfl, ?_⟩
      intro c hlo hhi
      omega
  | succ left ih =>
      obtain ⟨result, hresult, hfirst⟩ :=
        @ih (fieldIdx + 1) 0 (by decide)
      rw [Nat.add_zero, Nat.add_right_comm, Nat.add_assoc] at hfirst
      have hskip : ∀ {lo : ℕ}, lo ≤ 64 →
          FirstIn (fun c => st.mine subproc (arenaIdx, c))
            (64 * fieldIdx + lo) (64 * (fieldIdx + 1)) none →
          FirstIn (fun c => st.mine subproc (arenaIdx, c))
            (64 * fieldIdx + lo) (64 * (fieldIdx + (left + 1))) result :=
        fun hlo hnone => hnone.skip hfirst (by omega)
      unfold AbandonState.visitFields
      dsimp only
      split
      · obtain ⟨found, hfound, hbits⟩ := @visitBits_first st arenaIdx subproc
          fieldIdx (64 - bitIdx) _ rfl (by omega)
        rw [Nat.sub_sub_self hbit.le] at hbits
        have hshift := @FirstIn.shift (fun c => st.mine subproc (arenaIdx, c))
          _ _ _ _ hbits
        rw [hfound]
        cases found with
        | none => exact ⟨result, hresult, hskip hbit.le hshift⟩
        | some b =>
            exact ⟨_, rfl, hshift.widen (by omega)⟩
      · rename_i hzero
        refine ⟨result, hresult, hskip hbit.le ?_⟩
        have hclear : st.blocksAbandoned arenaIdx fieldIdx = 0 :=
          not_not.mp hzero
        intro c hlo hhi
        have hfieldIdx : c / 64 = fieldIdx := by omega
        unfold AbandonState.mine bit
        dsimp only
        rw [hfieldIdx, hclear]
        exact congrArg (· && _) BitVec.getLsbD_zero

end Loops

/-! ## The segments ahead -/

namespace AbandonState

def arenaAt (st : AbandonState) (k : ℕ) : ℕ :=
  if st.arenaCount ≤ k then k % st.arenaCount else k

/-- The marks of a sub-process in `left` arenas, in the order of a visit; the
first arena is entered at a bit. -/
def marksAhead (st : AbandonState) (subproc : ℕ) :
    (left start bitmapIdx : ℕ) → List SegmentId
  | 0, _, _ => []
  | left + 1, start, bitmapIdx =>
      ((List.range' bitmapIdx (64 * st.fields (st.arenaAt start) - bitmapIdx)
        ).filter fun b => st.mine subproc (st.arenaAt start, b)).map
          (SegmentId.arena (st.arenaAt start)) ++
        marksAhead st subproc left (start + 1) 0

def todo (st : AbandonState) (lists : ℕ → List ℕ) (cursor : AbandonedCursor) :
    List SegmentId :=
  st.marksAhead cursor.subproc (cursor.stop - cursor.start) cursor.start
      cursor.bitmapIdx ++
    ((lists cursor.subproc).take cursor.osListCount).map SegmentId.os

end AbandonState

section Ahead

variable {st st' : AbandonState} {subproc : ℕ}

theorem arenaAt_eq_mod (k : ℕ) : st.arenaAt k = k % st.arenaCount := by
  unfold AbandonState.arenaAt
  split
  · rfl
  · rename_i hlt
    exact (Nat.mod_eq_of_lt (not_le.mp hlt)).symm

theorem marksAhead_congr {left start bitmapIdx : ℕ}
    (hcount : st'.arenaCount = st.arenaCount)
    (hfields : st'.fieldCount = st.fieldCount)
    (hmine : ∀ k c, start ≤ k → k < start + left →
      (k = start → bitmapIdx ≤ c) →
        st'.mine subproc (st.arenaAt k, c) = st.mine subproc (st.arenaAt k, c)) :
    st'.marksAhead subproc left start bitmapIdx =
      st.marksAhead subproc left start bitmapIdx := by
  have harenaAt : ∀ k, st'.arenaAt k = st.arenaAt k := by
    intro k
    rw [arenaAt_eq_mod, arenaAt_eq_mod, hcount]
  have hfieldsAt : ∀ i, st'.fields i = st.fields i := by
    intro i
    unfold AbandonState.fields
    rw [hfields]
  induction left generalizing start bitmapIdx with
  | zero => rfl
  | succ left ih =>
      unfold AbandonState.marksAhead
      rw [harenaAt, hfieldsAt]
      congr 1
      · congr 1
        apply List.filter_congr
        intro c hc
        rw [List.mem_range'_1] at hc
        exact hmine start c le_rfl (by omega) fun _ => hc.1
      · apply ih
        intro k c hlo hhi _
        exact hmine k c (by omega) (by omega) (by omega)

theorem mem_marksAhead {left start bitmapIdx : ℕ} {segment : SegmentId}
    (hmem : segment ∈ st.marksAhead subproc left start bitmapIdx) :
    ∃ k c, start ≤ k ∧ k < start + left ∧ (k = start → bitmapIdx ≤ c) ∧
      segment = .arena (st.arenaAt k) c ∧
      st.mine subproc (st.arenaAt k, c) = true := by
  induction left generalizing start bitmapIdx with
  | zero => exact absurd hmem List.not_mem_nil
  | succ left ih =>
      unfold AbandonState.marksAhead at hmem
      rcases List.mem_append.mp hmem with hmem | hmem
      · obtain ⟨c, hc, rfl⟩ := List.mem_map.mp hmem
        rw [List.mem_filter, List.mem_range'_1] at hc
        exact ⟨start, c, le_rfl, by omega, fun _ => hc.1.1, rfl, hc.2⟩
      · obtain ⟨k, c, hlo, hhi, -, hsegment, hmine⟩ := ih hmem
        exact ⟨k, c, by omega, by omega, by omega, hsegment, hmine⟩

/-- The result of a search for the next mark: none is ahead, or the first one
is cleared and the cursor stands behind it. -/
def NextMark (st : AbandonState) (previous : AbandonedCursor)
    (left bitmapIdx : ℕ)
    (result : Option SegmentId × AbandonedCursor × AbandonState) : Prop :=
  (st.marksAhead previous.subproc left previous.start bitmapIdx = [] ∧
    result = (none, { previous with start := previous.start + left }, st)) ∨
  ∃ k b, previous.start ≤ k ∧ k < previous.start + left ∧
    st.mine previous.subproc (st.arenaAt k, b) = true ∧
    st.marksAhead previous.subproc left previous.start bitmapIdx =
      .arena (st.arenaAt k) b :: st.marksAhead previous.subproc
        (previous.start + left - k) k (b + 1) ∧
    result = (some (.arena (st.arenaAt k) b),
      { previous with start := k, bitmapIdx := b + 1 },
      (st.clearAbandonedAt (st.arenaAt k) previous.subproc b).2)

theorem NextMark.following {left bitmapIdx : ℕ} {previous : AbandonedCursor}
    {result : Option SegmentId × AbandonedCursor × AbandonState}
    (h : NextMark st { previous with start := previous.start + 1 } left 0
      result)
    (hnil : ((List.range' bitmapIdx
      (64 * st.fields (st.arenaAt previous.start) - bitmapIdx)).filter
        fun b => st.mine previous.subproc (st.arenaAt previous.start, b)) =
          []) :
    NextMark st previous (left + 1) bitmapIdx result := by
  have hstep : previous.start + 1 + left = previous.start + (left + 1) := by
    omega
  unfold NextMark at h
  dsimp only at h
  rw [hstep] at h
  have hahead : st.marksAhead previous.subproc (left + 1) previous.start
      bitmapIdx =
        st.marksAhead previous.subproc left (previous.start + 1) 0 := by
    rw [AbandonState.marksAhead, hnil, List.map_nil, List.nil_append]
  unfold NextMark
  rw [hahead]
  rcases h with hnone | ⟨k, b, hlo, hhi, hfound⟩
  · exact Or.inl hnone
  · exact Or.inr ⟨k, b, by omega, hhi, hfound⟩

theorem clearNextField_spec {left fieldIdx bitIdx : ℕ}
    {previous : AbandonedCursor} (hbit : bitIdx < 64) :
    NextMark st previous left (64 * fieldIdx + bitIdx)
      (st.clearNextField left fieldIdx bitIdx previous) := by
  induction left generalizing fieldIdx bitIdx previous with
  | zero => exact Or.inl ⟨rfl, rfl⟩
  | succ left ih =>
      have hrest := @ih 0 0 { previous with start := previous.start + 1 }
        (by decide)
      have harena : (if st.arenaCount ≤ previous.start then
          previous.start % st.arenaCount else previous.start) =
            st.arenaAt previous.start := rfl
      unfold AbandonState.clearNextField
      dsimp only
      rw [harena]
      cases hcount : st.fieldCount (st.arenaAt previous.start) with
      | none =>
          apply hrest.following
          have hfields : st.fields (st.arenaAt previous.start) = 0 := by
            unfold AbandonState.fields
            rw [hcount]
            rfl
          rw [hfields, Nat.mul_zero, Nat.zero_sub]
          rfl
      | some fieldCount =>
          have hfields : st.fields (st.arenaAt previous.start) =
              fieldCount := by
            unfold AbandonState.fields
            rw [hcount]
            rfl
          obtain ⟨result, hresult, hfirst⟩ := @visitFields_first st
            (st.arenaAt previous.start) previous.subproc
            (fieldCount - fieldIdx) fieldIdx bitIdx hbit
          have hend : 64 * (fieldIdx + (fieldCount - fieldIdx)) -
              (64 * fieldIdx + bitIdx) =
              64 * fieldCount - (64 * fieldIdx + bitIdx) := by
            omega
          dsimp only
          rw [hresult]
          cases result with
          | none =>
              apply hrest.following
              have hnil := hfirst.filter_none
              rw [hend] at hnil
              rw [hfields]
              exact hnil
          | some b =>
              have hlt := hfirst.2.1
              have hfilter := hfirst.filter_some
              have hle : fieldIdx ≤ fieldCount := by
                have hlo := hfirst.1
                omega
              rw [Nat.add_sub_cancel' hle] at hfilter
              refine Or.inr ⟨previous.start, b, le_rfl, by omega,
                hfirst.2.2.1, ?_, rfl⟩
              have hleft : previous.start + (left + 1) - previous.start =
                  left + 1 := by
                omega
              rw [hleft]
              unfold AbandonState.marksAhead
              rw [hfields, hfilter]
              rfl

end Ahead

/-! ## One step of a visit -/

section Steps

variable {st : AbandonState} {lists : ℕ → List ℕ} {cursor : AbandonedCursor}
  {rest : List SegmentId}

theorem popNextList_nil {subproc osListCount : ℕ} (h : AbandonLaw st lists)
    (hend : osListCount = 0 ∨ lists subproc = []) :
    ∃ left, st.popNextList subproc osListCount = (none, left, st) := by
  cases osListCount with
  | zero => exact ⟨0, rfl⟩
  | succ left =>
      have hnil : lists subproc = [] := by simpa using hend
      have hfirst : (st.osList subproc).first = none := by
        rw [(h.family.queue subproc).first, hnil]
        rfl
      unfold AbandonState.popNextList
      rw [hfirst]
      exact ⟨left, rfl⟩

theorem popNextList_cons {subproc left address : ℕ} {l : List ℕ}
    (h : AbandonLaw st lists) (hlist : lists subproc = address :: l) :
    st.popNextList subproc (left + 1) =
      (some address, left, (st.osClearAbandoned address false 0).2) := by
  have hfirst : (st.osList subproc).first = some address := by
    rw [(h.family.queue subproc).first, hlist]
    rfl
  have hmem : address ∈ lists subproc := by
    rw [hlist]
    exact List.mem_cons_self
  have hclear := @osClearAbandoned_of_mem st lists subproc address 0 false h
    hmem
  unfold AbandonState.popNextList
  rw [hfirst]
  dsimp only
  rw [if_pos hclear.1]

structure CursorOk (st : AbandonState) (lists : ℕ → List ℕ)
    (cursor : AbandonedCursor) : Prop where
  window : cursor.stop ≤ cursor.start + st.arenaCount
  entries : cursor.osListCount ≤ (lists cursor.subproc).length

/-- The state and the cursor of a visit, with the segments to visit. -/
def VisitAhead (st : AbandonState) (cursor : AbandonedCursor)
    (rest : List SegmentId) : Prop :=
  ∃ lists, AbandonLaw st lists ∧ CursorOk st lists cursor ∧
    st.todo lists cursor = rest

theorem arenaAt_ne {k start stop : ℕ}
    (hwindow : stop ≤ start + st.arenaCount) (hstart : start < k)
    (hk : k < stop) : st.arenaAt k ≠ st.arenaAt start := by
  rw [arenaAt_eq_mod, arenaAt_eq_mod]
  intro heq
  have hdvd : st.arenaCount ∣ k - start :=
    (Nat.modEq_iff_dvd' hstart.le).mp heq.symm
  have hle : st.arenaCount ≤ k - start :=
    Nat.le_of_dvd (Nat.sub_pos_of_lt hstart) hdvd
  omega

/-- A change of a mark behind the cursor. -/
theorem MarkChange.marksAhead {st' : AbandonState}
    {arenaIdx k b subproc stop : ℕ} {value : Bool}
    (hchange : MarkChange arenaIdx b value st st')
    (harena : arenaIdx = st.arenaAt k)
    (hwindow : stop ≤ k + st.arenaCount) :
    st'.marksAhead subproc (stop - k) k (b + 1) =
      st.marksAhead subproc (stop - k) k (b + 1) := by
  apply marksAhead_congr hchange.arenaCount hchange.fieldCount
  intro k' c hlo hhi hc
  rw [hchange.mine, if_neg]
  intro heq
  obtain ⟨hat, hcb⟩ := Prod.mk.inj heq
  by_cases hk : k' = k
  · have hle := hc hk
    omega
  · exact arenaAt_ne hwindow (by omega) (by omega) (hat.trans harena)

theorem SamePlaces.marksAhead {st' : AbandonState}
    (hsame : SamePlaces st st') {subproc left start bitmapIdx : ℕ} :
    st'.marksAhead subproc left start bitmapIdx =
      st.marksAhead subproc left start bitmapIdx := by
  apply marksAhead_congr hsame.arenaCount hsame.fieldCount
  intro k c _ _ _
  unfold AbandonState.mine
  rw [hsame.blocksAbandoned, hsame.subproc]

theorem clearAbandonedNext_cases (st : AbandonState)
    (cursor : AbandonedCursor) :
    (st.marksAhead cursor.subproc (cursor.stop - cursor.start) cursor.start
        cursor.bitmapIdx = [] ∧
      ∃ previous, previous.subproc = cursor.subproc ∧
        previous.osListCount = cursor.osListCount ∧
        previous.stop ≤ previous.start ∧
        st.clearAbandonedNext cursor = st.clearNextList previous) ∨
    ∃ k b, cursor.start ≤ k ∧ k < cursor.stop ∧
      st.mine cursor.subproc (st.arenaAt k, b) = true ∧
      st.marksAhead cursor.subproc (cursor.stop - cursor.start) cursor.start
          cursor.bitmapIdx =
        .arena (st.arenaAt k) b ::
          st.marksAhead cursor.subproc (cursor.stop - k) k (b + 1) ∧
      st.clearAbandonedNext cursor = (some (.arena (st.arenaAt k) b),
        { cursor with start := k, bitmapIdx := b + 1 },
        (st.clearAbandonedAt (st.arenaAt k) cursor.subproc b).2) := by
  unfold AbandonState.clearAbandonedNext
  by_cases hlt : cursor.start < cursor.stop
  · have hnext := @clearNextField_spec st (cursor.stop - cursor.start)
      (cursor.bitmapIdx / 64) (cursor.bitmapIdx % 64) cursor
      (Nat.mod_lt _ (by decide))
    rw [Nat.div_add_mod] at hnext
    have hstop : cursor.start + (cursor.stop - cursor.start) = cursor.stop :=
      Nat.add_sub_cancel' hlt.le
    unfold NextMark at hnext
    rw [hstop] at hnext
    rw [if_pos hlt]
    rcases hnext with ⟨hnil, hresult⟩ | ⟨k, b, hlo, hhi, hmine, hahead, hresult⟩
    · rw [hresult]
      exact Or.inl ⟨hnil, { cursor with start := cursor.stop }, rfl, rfl,
        le_rfl, rfl⟩
    · rw [hresult]
      exact Or.inr ⟨k, b, hlo, hhi, hmine, hahead, rfl⟩
  · have hzero : cursor.stop - cursor.start = 0 := by omega
    rw [if_neg hlt, hzero]
    exact Or.inl ⟨rfl, cursor, rfl, rfl, not_lt.mp hlt, rfl⟩

theorem AbandonLaw.next (h : AbandonLaw st lists) :
    RegistryStep none st (st.clearAbandonedNext cursor).2.2 := by
  rcases clearAbandonedNext_cases st cursor with
    ⟨-, previous, -, -, -, hnext⟩ | ⟨k, b, -, -, hmine, -, hnext⟩
  · rw [hnext]
    unfold AbandonState.clearNextList
    by_cases hend : previous.osListCount = 0 ∨ lists previous.subproc = []
    · obtain ⟨left, hpop⟩ := popNextList_nil h hend
      rw [hpop]
      exact h.refl none
    · rw [not_or] at hend
      obtain ⟨left, hleft⟩ := Nat.exists_eq_succ_of_ne_zero hend.1
      obtain ⟨address, l, hlist⟩ := List.exists_cons_of_ne_nil hend.2
      have hmem : address ∈ lists previous.subproc := by
        rw [hlist]
        exact List.mem_cons_self
      rw [hleft, popNextList_cons h hlist]
      exact h.osClears hmem
  · rw [hnext]
    have hchange := (clearAbandonedAt_of_mine hmine (h.count_pos hmine)).2
    have hbit := ((Bool.and_eq_true _ _).mp hmine).1
    exact h.changesMark hchange hbit (h.inRange _ _ hbit) fun hvalue =>
      nomatch hvalue

theorem visit_end (h : VisitAhead st cursor []) :
    ∃ cursor', st.clearAbandonedNext cursor = (none, cursor', st) := by
  obtain ⟨lists, hlaw, hok, htodo⟩ := h
  obtain ⟨hmarks, htake⟩ := List.append_eq_nil_iff.mp htodo
  rcases clearAbandonedNext_cases st cursor with
    ⟨-, previous, hsubproc, hcount, -, hnext⟩ | ⟨k, b, -, -, -, hahead, -⟩
  · have hend : previous.osListCount = 0 ∨ lists previous.subproc = [] := by
      rw [hsubproc, hcount]
      rw [List.map_eq_nil_iff, List.take_eq_nil_iff] at htake
      exact htake
    obtain ⟨left, hpop⟩ := popNextList_nil hlaw hend
    rw [hnext]
    unfold AbandonState.clearNextList
    rw [hpop]
    exact ⟨_, rfl⟩
  · rw [hmarks] at hahead
    exact absurd hahead (List.cons_ne_nil _ _).symm

/-- The next segment is the first one ahead.  Marking it again leaves the
others ahead as they are. -/
theorem visit_next {segment : SegmentId}
    (h : VisitAhead st cursor (segment :: rest)) :
    ∃ cursor' st',
      st.clearAbandonedNext cursor = (some segment, cursor', st') ∧
      VisitAhead st' cursor' rest ∧
      VisitAhead (st'.markAbandoned segment) cursor' rest ∧
      st'.InArenas segment ∧ ¬st'.Abandoned segment := by
  obtain ⟨lists, hlaw, hok, htodo⟩ := h
  unfold AbandonState.todo at htodo
  rcases clearAbandonedNext_cases st cursor with
    ⟨hmarks, previous, hsubproc, hcount, hstop, hnext⟩ |
    ⟨k, b, hlo, hhi, hmine, hahead, hnext⟩
  · -- an entry of the list
    rw [hmarks, List.nil_append, ← hsubproc, ← hcount] at htodo
    have hentries := hok.entries
    rw [← hsubproc, ← hcount] at hentries
    obtain ⟨address, l, hlist⟩ : ∃ address l,
        lists previous.subproc = address :: l := by
      cases hlist : lists previous.subproc with
      | nil =>
          rw [hlist, List.take_nil] at htodo
          exact absurd htodo.symm (List.cons_ne_nil _ _)
      | cons address l => exact ⟨address, l, rfl⟩
    obtain ⟨left, hleft⟩ : ∃ left, previous.osListCount = left + 1 := by
      cases hleft : previous.osListCount with
      | zero =>
          rw [hleft, List.take_zero] at htodo
          exact absurd htodo.symm (List.cons_ne_nil _ _)
      | succ left => exact ⟨left, rfl⟩
    have hmem : address ∈ lists previous.subproc := by
      rw [hlist]
      exact List.mem_cons_self
    obtain ⟨-, hcleared, hplaces⟩ := @osClearAbandoned_of_mem st lists
      previous.subproc address 0 false hlaw hmem
    rw [hlist, List.erase_cons_head] at hcleared
    rw [hlist, hleft, List.take_succ_cons, List.map_cons,
      List.cons.injEq] at htodo
    obtain ⟨rfl, hrest⟩ := htodo
    rw [hlist, hleft, List.length_cons] at hentries
    have hsubproc' : (st.osClearAbandoned address false 0).2.subproc
        (.os address) = previous.subproc := by
      rw [hplaces.subproc]
      exact hlaw.subproc _ address hmem
    have hnot : ¬(st.osClearAbandoned address false 0).2.Abandoned
        (.os address) := by
      have hnodup := (hlaw.family.queue previous.subproc).nodup
      rw [hlist, List.nodup_cons] at hnodup
      rw [abandoned_os_iff hcleared, hsubproc', Function.update_self]
      exact hnodup.1
    obtain ⟨hmarked, -⟩ := hcleared.markOs hnot
    rw [hsubproc', Function.update_self] at hmarked
    have hzero : previous.stop - previous.start = 0 :=
      Nat.sub_eq_zero_of_le hstop
    rw [hnext]
    unfold AbandonState.clearNextList
    rw [hleft, popNextList_cons hlaw hlist]
    refine ⟨_, _, rfl, ⟨_, hcleared, ⟨?_, ?_⟩, ?_⟩,
      ⟨_, hmarked, ⟨?_, ?_⟩, ?_⟩, trivial, hnot⟩
    · exact hstop.trans (Nat.le_add_right _ _)
    · dsimp only
      rw [Function.update_self]
      omega
    · unfold AbandonState.todo
      dsimp only
      rw [hzero, Function.update_self]
      exact hrest
    · exact hstop.trans (Nat.le_add_right _ _)
    · dsimp only
      rw [Function.update_self, List.length_append]
      omega
    · unfold AbandonState.todo
      dsimp only
      rw [hzero, Function.update_self,
        List.take_append_of_le_length (by omega)]
      exact hrest
  · -- a mark in an arena
    rw [hahead, List.cons_append, List.cons.injEq] at htodo
    obtain ⟨rfl, hrest⟩ := htodo
    have hchange := (clearAbandonedAt_of_mine hmine (hlaw.count_pos hmine)).2
    have hbit := ((Bool.and_eq_true _ _).mp hmine).1
    have hin := hlaw.inRange _ _ hbit
    have hcleared := hlaw.changeMark hchange hbit hin
    have hclear := hchange.bits (st.arenaAt k) b
    rw [if_pos ⟨rfl, rfl⟩] at hclear
    have hmark := markAbandoned_arena hclear
    have hmarked := hcleared.markArena ((hchange.inArenas _).mpr hin) hclear
    have hwindow : cursor.stop ≤ k + st.arenaCount :=
      hok.window.trans (Nat.add_le_add_right hlo _)
    have harenaAt : ∀ {st' : AbandonState}, st'.arenaCount = st.arenaCount →
        st'.arenaAt k = st.arenaAt k := by
      intro st' hcount
      rw [arenaAt_eq_mod, arenaAt_eq_mod, hcount]
    have hnot : ¬(st.clearAbandonedAt (st.arenaAt k) cursor.subproc b
        ).2.Abandoned (.arena (st.arenaAt k) b) := by
      intro hset
      exact Bool.false_ne_true (hclear.symm.trans hset)
    refine ⟨_, _, hnext, ⟨lists, hcleared, ⟨?_, hok.entries⟩, ?_⟩,
      ⟨lists, hmarked, ⟨?_, hok.entries⟩, ?_⟩,
      (hchange.inArenas _).mpr hin, hnot⟩
    · rw [hchange.arenaCount]
      exact hwindow
    · unfold AbandonState.todo
      dsimp only
      rw [hchange.marksAhead rfl hwindow]
      exact hrest
    · rw [hmark.arenaCount, hchange.arenaCount]
      exact hwindow
    · unfold AbandonState.todo
      dsimp only
      have hwindow' := hwindow
      rw [← hchange.arenaCount] at hwindow'
      rw [hmark.marksAhead (harenaAt hchange.arenaCount).symm hwindow',
        hchange.marksAhead rfl hwindow]
      exact hrest

end Steps

end Palloc
