import Palloc.AbandonedSegments
import Palloc.ArenaBlocks
import Mathlib.Data.Finset.Card
import Mathlib.Data.Finset.Prod
import Mathlib.Data.Finset.Union

/-!
# Where the abandoned segments are

The counter of a sub-process is the number of its marks in the bitmaps of
arenas and of the entries of its list.  One mark or one entry comes or goes at
a time.
-/

namespace Palloc

open BitFields LinkedQueue

namespace AbandonState

def fields (st : AbandonState) (arenaIdx : ℕ) : ℕ :=
  (st.fieldCount arenaIdx).getD 0

/-- An arena has a mark for a segment of a sub-process. -/
def mine (st : AbandonState) (subproc : ℕ) (place : ℕ × ℕ) : Bool :=
  bit (st.blocksAbandoned place.1) place.2 &&
    decide (st.subproc (.arena place.1 place.2) = subproc)

/-- The marks in the arenas for segments of a sub-process. -/
def arenaMarks (st : AbandonState) (subproc : ℕ) : Finset (ℕ × ℕ) :=
  ((Finset.range st.arenaCount).biUnion fun arenaIdx =>
    (Finset.range (64 * st.fields arenaIdx)).image (Prod.mk arenaIdx)).filter
      fun place => st.mine subproc place

def Abandoned (st : AbandonState) : SegmentId → Prop
  | .arena arenaIdx bitmapIdx =>
      bit (st.blocksAbandoned arenaIdx) bitmapIdx = true
  | .os address =>
      ∃ l, IsQueue st.links (st.osList (st.subproc (.os address))) l ∧
        address ∈ l

/-- A segment lies in a bitmap, if it lies in an arena. -/
def InArenas (st : AbandonState) : SegmentId → Prop
  | .arena arenaIdx bitmapIdx =>
      arenaIdx < st.arenaCount ∧ bitmapIdx < 64 * st.fields arenaIdx
  | .os _ => True

end AbandonState

structure AbandonLaw (st : AbandonState) (lists : ℕ → List ℕ) : Prop where
  family : IsFamily st.links st.osList lists
  subproc : ∀ subproc, ∀ address ∈ lists subproc,
    st.subproc (.os address) = subproc
  unlinked : ∀ address, (∀ subproc, address ∉ lists subproc) →
    st.links.next address = none ∧ st.links.prev address = none
  inRange : ∀ arenaIdx b, bit (st.blocksAbandoned arenaIdx) b = true →
    st.InArenas (.arena arenaIdx b)
  listCount : ∀ subproc, st.osListCount subproc = (lists subproc).length
  count : ∀ subproc, st.abandonedCount subproc =
    (st.arenaMarks subproc).card + (lists subproc).length

/-! ## Single bits -/

theorem bit_unclaim_one (bitmap : Fields) (b c : ℕ) :
    bit (bitmapUnclaim bitmap 1 b).2 c =
      if c = b then false else bit bitmap c := by
  have hfit : b % 64 + 1 ≤ 64 := Nat.mod_lt b (by decide)
  have hclears := bitmapUnclaim_spec bitmap hfit
  split
  · rename_i hsame
    subst hsame
    exact hclears.inside le_rfl (Nat.lt_succ_self c)
  · exact hclears.outside (by omega)

theorem bit_claim_one (bitmap : Fields) (b c : ℕ) :
    bit (bitmapClaim bitmap 1 b).2 c =
      if c = b then true else bit bitmap c := by
  have hfit : b % 64 + 1 ≤ 64 := Nat.mod_lt b (by decide)
  have hsets := bitmapClaim_spec bitmap hfit
  split
  · rename_i hsame
    subst hsame
    exact hsets.inside le_rfl (Nat.lt_succ_self c)
  · exact hsets.outside (by omega)

theorem unclaim_one (bitmap : Fields) (b : ℕ) :
    (bitmapUnclaim bitmap 1 b).1 = bit bitmap b := by
  have hfit : b % 64 + 1 ≤ 64 := Nat.mod_lt b (by decide)
  have hfull := @and_ones_eq_iff bitmap (b / 64) _ _ hfit
  rw [Nat.div_add_mod] at hfull
  have hbit : Full bitmap b (b + 1) ↔ bit bitmap b = true := by
    constructor
    · exact fun h => h b le_rfl (Nat.lt_succ_self b)
    · intro h c hlo hhi
      have hc : c = b := by omega
      rw [hc]
      exact h
  rw [Bool.eq_iff_iff]
  exact decide_eq_true_iff.trans (hfull.trans hbit)

theorem claim_one (bitmap : Fields) (b : ℕ) :
    (bitmapClaim bitmap 1 b).1 = !bit bitmap b := by
  have hfit : b % 64 + 1 ≤ 64 := Nat.mod_lt b (by decide)
  have hclear := @and_ones_eq_zero_iff bitmap (b / 64) _ _ hfit
  rw [Nat.div_add_mod] at hclear
  have hbit : Clear bitmap b (b + 1) ↔ (!bit bitmap b) = true := by
    rw [Bool.not_eq_true']
    constructor
    · exact fun h => h b le_rfl (Nat.lt_succ_self b)
    · intro h c hlo hhi
      have hc : c = b := by omega
      rw [hc]
      exact h
  rw [Bool.eq_iff_iff]
  exact decide_eq_true_iff.trans (hclear.trans hbit)

theorem unclaim_one_of_clear {bitmap : Fields} {b : ℕ}
    (hbit : bit bitmap b = false) : (bitmapUnclaim bitmap 1 b).2 = bitmap := by
  apply ext_bit
  intro c
  rw [bit_unclaim_one]
  split
  · rename_i hsame
    rw [hsame, hbit]
  · rfl

theorem claim_unclaim_one {bitmap : Fields} {b : ℕ}
    (hbit : bit bitmap b = true) :
    (bitmapClaim (bitmapUnclaim bitmap 1 b).2 1 b).2 = bitmap := by
  apply ext_bit
  intro c
  rw [bit_claim_one, bit_unclaim_one]
  split
  · rename_i hsame
    rw [hsame, hbit]
  · rfl

theorem bits_update_unclaim (blocks : ℕ → Fields) {arenaIdx b : ℕ} (i c : ℕ) :
    bit (Function.update blocks arenaIdx
      (bitmapUnclaim (blocks arenaIdx) 1 b).2 i) c =
        if i = arenaIdx ∧ c = b then false else bit (blocks i) c := by
  by_cases hi : i = arenaIdx
  · rw [hi, Function.update_self, bit_unclaim_one]
    simp
  · rw [Function.update_of_ne hi, if_neg fun heq => hi heq.1]

theorem bits_update_claim (blocks : ℕ → Fields) {arenaIdx b : ℕ} (i c : ℕ) :
    bit (Function.update blocks arenaIdx
      (bitmapClaim (blocks arenaIdx) 1 b).2 i) c =
        if i = arenaIdx ∧ c = b then true else bit (blocks i) c := by
  by_cases hi : i = arenaIdx
  · rw [hi, Function.update_self, bit_claim_one]
    simp
  · rw [Function.update_of_ne hi, if_neg fun heq => hi heq.1]

/-! ## Marks -/

section Marks

variable {st st' : AbandonState} {lists : ℕ → List ℕ}
  {arenaIdx b subproc : ℕ}

theorem mem_arenaMarks
    (hrange : ∀ arenaIdx b, bit (st.blocksAbandoned arenaIdx) b = true →
      st.InArenas (.arena arenaIdx b)) (place : ℕ × ℕ) :
    place ∈ st.arenaMarks subproc ↔ st.mine subproc place = true := by
  unfold AbandonState.arenaMarks
  rw [Finset.mem_filter, Finset.mem_biUnion]
  constructor
  · exact fun h => h.2
  · intro hmine
    have hbit : bit (st.blocksAbandoned place.1) place.2 = true :=
      ((Bool.and_eq_true _ _).mp hmine).1
    obtain ⟨harena, hlt⟩ := hrange _ _ hbit
    refine ⟨⟨place.1, Finset.mem_range.mpr harena, ?_⟩, hmine⟩
    exact Finset.mem_image.mpr ⟨place.2, Finset.mem_range.mpr hlt, rfl⟩

structure MarkChange (arenaIdx b : ℕ) (value : Bool) (st st' : AbandonState) :
    Prop where
  arenaCount : st'.arenaCount = st.arenaCount
  fieldCount : st'.fieldCount = st.fieldCount
  bits : ∀ i c, bit (st'.blocksAbandoned i) c =
    if i = arenaIdx ∧ c = b then value else bit (st.blocksAbandoned i) c
  links : st'.links = st.links
  osList : st'.osList = st.osList
  osListCount : st'.osListCount = st.osListCount
  subproc : st'.subproc = st.subproc
  count : ∀ subproc, st'.abandonedCount subproc +
      (if subproc = st.subproc (.arena arenaIdx b) ∧ value = false then 1
        else 0) =
    st.abandonedCount subproc +
      if subproc = st.subproc (.arena arenaIdx b) ∧ value = true then 1 else 0

theorem MarkChange.mine {value : Bool}
    (hchange : MarkChange arenaIdx b value st st') (place : ℕ × ℕ) :
    st'.mine subproc place =
      if place = (arenaIdx, b) then
        value && decide (st.subproc (.arena arenaIdx b) = subproc)
      else st.mine subproc place := by
  unfold AbandonState.mine
  rw [hchange.bits, hchange.subproc]
  by_cases hplace : place = (arenaIdx, b)
  · rw [if_pos hplace, hplace, if_pos ⟨rfl, rfl⟩]
  · have hne : ¬(place.1 = arenaIdx ∧ place.2 = b) := fun heq =>
      hplace (Prod.ext heq.1 heq.2)
    rw [if_neg hplace, if_neg hne]

theorem MarkChange.inArenas {value : Bool}
    (hchange : MarkChange arenaIdx b value st st') (segment : SegmentId) :
    st'.InArenas segment ↔ st.InArenas segment := by
  cases segment with
  | arena i c =>
      unfold AbandonState.InArenas AbandonState.fields
      rw [hchange.arenaCount, hchange.fieldCount]
  | os address => exact Iff.rfl

theorem AbandonLaw.changeMark {value : Bool} (h : AbandonLaw st lists)
    (hchange : MarkChange arenaIdx b value st st')
    (hold : bit (st.blocksAbandoned arenaIdx) b = !value)
    (hin : st.InArenas (.arena arenaIdx b)) : AbandonLaw st' lists := by
  have hrange : ∀ i c, bit (st'.blocksAbandoned i) c = true →
      st'.InArenas (.arena i c) := by
    intro i c hbit
    rw [hchange.inArenas]
    rw [hchange.bits] at hbit
    split at hbit
    · rename_i hplace
      rw [hplace.1, hplace.2]
      exact hin
    · exact h.inRange i c hbit
  constructor
  · rw [hchange.links, hchange.osList]
    exact h.family
  · rw [hchange.subproc]
    exact h.subproc
  · rw [hchange.links]
    exact h.unlinked
  · exact hrange
  · rw [hchange.osListCount]
    exact h.listCount
  · intro subproc
    have hcount := hchange.count subproc
    rw [h.count subproc] at hcount
    have hmineOld : st.mine subproc (arenaIdx, b) =
        (!value && decide (st.subproc (.arena arenaIdx b) = subproc)) := by
      unfold AbandonState.mine
      rw [hold]
    by_cases hsame : subproc = st.subproc (.arena arenaIdx b)
    · cases value with
      | true =>
          have hmarks : st'.arenaMarks subproc =
              insert (arenaIdx, b) (st.arenaMarks subproc) := by
            ext place
            rw [Finset.mem_insert, mem_arenaMarks hrange,
              mem_arenaMarks h.inRange, hchange.mine]
            by_cases hplace : place = (arenaIdx, b)
            · simp [hplace, hsame]
            · simp [hplace]
          have hnot : (arenaIdx, b) ∉ st.arenaMarks subproc := by
            rw [mem_arenaMarks h.inRange, hmineOld]
            simp
          rw [hmarks, Finset.card_insert_of_notMem hnot]
          simp only [hsame, and_true, if_true] at hcount ⊢
          simp at hcount
          omega
      | false =>
          have hmarks : st'.arenaMarks subproc =
              (st.arenaMarks subproc).erase (arenaIdx, b) := by
            ext place
            rw [Finset.mem_erase, mem_arenaMarks hrange,
              mem_arenaMarks h.inRange, hchange.mine]
            by_cases hplace : place = (arenaIdx, b)
            · simp [hplace]
            · simp [hplace]
          have hmem : (arenaIdx, b) ∈ st.arenaMarks subproc := by
            rw [mem_arenaMarks h.inRange, hmineOld]
            simp [hsame]
          have hpos : 0 < (st.arenaMarks subproc).card :=
            Finset.card_pos.mpr ⟨_, hmem⟩
          rw [hmarks, Finset.card_erase_of_mem hmem]
          simp only [hsame, and_true, if_true] at hcount hpos ⊢
          simp at hcount
          omega
    · have hmarks : st'.arenaMarks subproc = st.arenaMarks subproc := by
        ext place
        rw [mem_arenaMarks hrange, mem_arenaMarks h.inRange, hchange.mine]
        by_cases hplace : place = (arenaIdx, b)
        · rw [if_pos hplace, hplace, hmineOld,
            decide_eq_false (Ne.symm hsame)]
          simp
        · rw [if_neg hplace]
      rw [hmarks]
      simpa [hsame] using hcount

end Marks

/-! ## The operations -/

section Operations

variable {st : AbandonState} {lists : ℕ → List ℕ}
  {arenaIdx b subproc address self : ℕ}

theorem abandoned_os_iff (h : AbandonLaw st lists) :
    st.Abandoned (.os address) ↔
      address ∈ lists (st.subproc (.os address)) := by
  have hqueue := h.family.queue (st.subproc (.os address))
  constructor
  · rintro ⟨l, hl, hmem⟩
    rw [hqueue.unique hl]
    exact hmem
  · intro hmem
    exact ⟨_, hqueue, hmem⟩

theorem not_mem_of_not_abandoned (h : AbandonLaw st lists)
    (hnot : ¬st.Abandoned (.os address)) (subproc : ℕ) :
    address ∉ lists subproc := by
  intro hmem
  rw [abandoned_os_iff h, h.subproc subproc address hmem] at hnot
  exact hnot hmem

theorem clearAbandonedAt_of_not_mine
    (hnot : st.mine subproc (arenaIdx, b) = false) :
    st.clearAbandonedAt arenaIdx subproc b = (false, st) := by
  unfold AbandonState.clearAbandonedAt
  dsimp only
  rw [unclaim_one]
  by_cases hbit : bit (st.blocksAbandoned arenaIdx) b = true
  · have hother : st.subproc (.arena arenaIdx b) ≠ subproc := by
      intro heq
      unfold AbandonState.mine at hnot
      rw [hbit, heq] at hnot
      simp at hnot
    rw [if_neg (not_not.mpr hbit), if_pos hother, Function.update_self,
      claim_unclaim_one hbit, Function.update_idem, Function.update_eq_self]
  · rw [if_pos hbit, unclaim_one_of_clear (Bool.eq_false_iff.mpr hbit),
      Function.update_eq_self]

theorem clearAbandonedAt_of_mine
    (hmine : st.mine subproc (arenaIdx, b) = true)
    (hpos : 0 < st.abandonedCount subproc) :
    (st.clearAbandonedAt arenaIdx subproc b).1 = true ∧
      MarkChange arenaIdx b false st
        (st.clearAbandonedAt arenaIdx subproc b).2 := by
  unfold AbandonState.mine at hmine
  rw [Bool.and_eq_true, decide_eq_true_iff] at hmine
  unfold AbandonState.clearAbandonedAt
  dsimp only
  rw [unclaim_one, if_neg (not_not.mpr hmine.1),
    if_neg (not_not.mpr hmine.2)]
  refine ⟨rfl, rfl, rfl, ?_, rfl, rfl, rfl, rfl, ?_⟩
  · exact bits_update_unclaim st.blocksAbandoned
  · intro other
    dsimp only
    rw [hmine.2]
    by_cases hother : other = subproc
    · subst hother
      simp
      omega
    · simp [hother]

theorem AbandonLaw.count_pos (h : AbandonLaw st lists)
    (hmine : st.mine subproc (arenaIdx, b) = true) :
    0 < st.abandonedCount subproc := by
  have hmem : (arenaIdx, b) ∈ st.arenaMarks subproc :=
    (mem_arenaMarks h.inRange _).mpr hmine
  have hpos : 0 < (st.arenaMarks subproc).card :=
    Finset.card_pos.mpr ⟨_, hmem⟩
  rw [h.count]
  omega

/-- The end pointers that the source computes for a linked segment. -/
theorem osEnds_eq {links : Links ℕ} {ends : Ends ℕ} {l : List ℕ}
    (hqueue : IsQueue links ends l) (hmem : address ∈ l) :
    (⟨if (links.prev address).isSome then ends.first
        else links.next address,
      if (links.next address).isSome then ends.last
        else links.prev address⟩ : Ends ℕ) =
      deleteEnds links ends address := by
  obtain ⟨before, after, rfl⟩ := List.append_of_mem hmem
  have hnodup := hqueue.nodup
  rw [List.nodup_middle, List.nodup_cons, List.mem_append, not_or] at hnodup
  obtain ⟨hnotBefore, hnotAfter⟩ := hnodup.1
  have hfirst := hqueue.first
  have hlast := hqueue.last
  ext1
  · unfold deleteEnds
    rw [hqueue.prev_eq, hfirst]
    cases before with
    | nil => simp
    | cons front rest =>
        have hne : front ≠ address := by
          rintro rfl
          exact hnotBefore List.mem_cons_self
        simp [hne]
  · unfold deleteEnds
    rw [hqueue.next_eq, hlast]
    cases after using List.reverseRecOn with
    | nil => simp
    | append_singleton rest back _ =>
        have hne : back ≠ address := by
          rintro rfl
          exact hnotAfter List.mem_concat_self
        have hback : (before ++ address :: (rest ++ [back])).getLast? =
            some back := by
          rw [← List.cons_append, ← List.append_assoc]
          exact List.getLast?_concat
        have hsome : (rest ++ [back]).head?.isSome = true := by
          cases rest <;> rfl
        rw [hback, if_pos hsome, if_neg fun heq =>
          hne (Option.some.inj heq)]

theorem osClearAbandoned_of_not_mem {takeLock : Bool} (h : AbandonLaw st lists)
    (hnot : ∀ subproc, address ∉ lists subproc) :
    st.osClearAbandoned address takeLock self = (false, st) := by
  obtain ⟨hnext, hprev⟩ := h.unlinked address hnot
  have hfirst : (st.osList (st.subproc (.os address))).first ≠
      some address := by
    rw [(h.family.queue _).first]
    intro heq
    exact hnot _ (List.mem_of_head? heq)
  unfold AbandonState.osClearAbandoned
  apply if_neg
  rw [hnext, hprev]
  simpa using hfirst

/-- What the removal of a segment from its list keeps. -/
theorem AbandonLaw.osRemove {st' : AbandonState} (h : AbandonLaw st lists)
    (hmem : address ∈ lists subproc)
    (hlinks : st'.links = deleteLinks st.links address)
    (hosList : st'.osList = Function.update st.osList subproc
      (deleteEnds st.links (st.osList subproc) address))
    (hcount : st'.abandonedCount = Function.update st.abandonedCount subproc
      (st.abandonedCount subproc - 1))
    (hlistCount : st'.osListCount = Function.update st.osListCount subproc
      (st.osListCount subproc - 1))
    (hsubproc : st'.subproc = st.subproc)
    (hblocks : st'.blocksAbandoned = st.blocksAbandoned)
    (harenaCount : st'.arenaCount = st.arenaCount)
    (hfieldCount : st'.fieldCount = st.fieldCount) :
    AbandonLaw st'
      (Function.update lists subproc ((lists subproc).erase address)) := by
  have hmarks : ∀ subproc, st'.arenaMarks subproc = st.arenaMarks subproc := by
    intro subproc
    unfold AbandonState.arenaMarks AbandonState.mine AbandonState.fields
    rw [hsubproc, hblocks, harenaCount, hfieldCount]
  have hlength : 0 < (lists subproc).length := List.length_pos_of_mem hmem
  have hsub : ∀ {other : ℕ} {i : ℕ},
      other ∈ Function.update lists subproc ((lists subproc).erase address) i →
        other ∈ lists i := by
    intro other i hother
    by_cases hi : i = subproc
    · rw [hi, Function.update_self] at hother
      rw [hi]
      exact List.mem_of_mem_erase hother
    · rw [Function.update_of_ne hi] at hother
      exact hother
  constructor
  · rw [hlinks, hosList]
    exact h.family.delete hmem
  · intro i other hother
    rw [hsubproc]
    exact h.subproc i other (hsub hother)
  · intro other hother
    rw [hlinks]
    by_cases hsame : address = other
    · rw [deleteLinks_next, deleteLinks_prev, if_pos hsame, if_pos hsame]
      exact ⟨rfl, rfl⟩
    · have hold : ∀ i, other ∉ lists i := by
        intro i hmem'
        apply hother i
        by_cases hi : i = subproc
        · rw [hi] at hmem' ⊢
          rw [Function.update_self]
          exact (List.mem_erase_of_ne (Ne.symm hsame)).mpr hmem'
        · rw [Function.update_of_ne hi]
          exact hmem'
      obtain ⟨hnext, hprev⟩ := (h.family.queue subproc).neighbours hmem
      rw [deleteLinks_next, deleteLinks_prev, if_neg hsame, if_neg hsame,
        if_neg fun heq => hold subproc (hprev other heq),
        if_neg fun heq => hold subproc (hnext other heq)]
      exact h.unlinked other hold
  · intro arenaIdx b hbit
    rw [hblocks] at hbit
    have hin := h.inRange arenaIdx b hbit
    unfold AbandonState.InArenas AbandonState.fields at hin ⊢
    rw [harenaCount, hfieldCount]
    exact hin
  · intro i
    rw [hlistCount]
    by_cases hi : i = subproc
    · rw [hi, Function.update_self, Function.update_self, h.listCount,
        List.length_erase_of_mem hmem]
    · rw [Function.update_of_ne hi, Function.update_of_ne hi]
      exact h.listCount i
  · intro i
    rw [hcount, hmarks]
    by_cases hi : i = subproc
    · rw [hi, Function.update_self, Function.update_self, h.count,
        List.length_erase_of_mem hmem]
      omega
    · rw [Function.update_of_ne hi, Function.update_of_ne hi]
      exact h.count i

structure SamePlaces (st st' : AbandonState) : Prop where
  arenaCount : st'.arenaCount = st.arenaCount
  fieldCount : st'.fieldCount = st.fieldCount
  blocksAbandoned : st'.blocksAbandoned = st.blocksAbandoned
  subproc : st'.subproc = st.subproc

theorem osClearAbandoned_of_mem {takeLock : Bool} (h : AbandonLaw st lists)
    (hmem : address ∈ lists subproc) :
    (st.osClearAbandoned address takeLock self).1 = true ∧
      AbandonLaw (st.osClearAbandoned address takeLock self).2
        (Function.update lists subproc ((lists subproc).erase address)) ∧
      SamePlaces st (st.osClearAbandoned address takeLock self).2 := by
  have hqueue := h.family.queue subproc
  have hsubproc := h.subproc subproc address hmem
  have hends := osEnds_eq hqueue hmem
  have hcond : (st.links.next address).isSome ∨
      (st.links.prev address).isSome ∨
        (st.osList subproc).first = some address := by
    obtain ⟨before, after, hsplit⟩ := List.append_of_mem hmem
    rw [hsplit] at hqueue
    rw [hqueue.prev_eq, hqueue.first]
    cases before with
    | nil => exact Or.inr (Or.inr rfl)
    | cons front rest => exact Or.inr (Or.inl (by simp))
  unfold AbandonState.osClearAbandoned
  dsimp only
  rw [hsubproc, if_pos hcond]
  refine ⟨rfl, h.osRemove hmem rfl ?_ rfl rfl rfl rfl rfl rfl,
    rfl, rfl, rfl, rfl⟩
  dsimp only
  rw [hends]

theorem markAbandoned_arena
    (hbit : bit (st.blocksAbandoned arenaIdx) b = false) :
    MarkChange arenaIdx b true st
      (st.markAbandoned (.arena arenaIdx b)) := by
  unfold AbandonState.markAbandoned
  dsimp only
  rw [claim_one, hbit, if_pos (Bool.not_false)]
  refine ⟨rfl, rfl, ?_, rfl, rfl, rfl, rfl, ?_⟩
  · exact bits_update_claim st.blocksAbandoned
  · intro other
    dsimp only
    by_cases hother : other = st.subproc (.arena arenaIdx b)
    · subst hother
      simp
    · simp [hother]

theorem AbandonLaw.markArena (h : AbandonLaw st lists)
    (hin : st.InArenas (.arena arenaIdx b))
    (hbit : bit (st.blocksAbandoned arenaIdx) b = false) :
    AbandonLaw (st.markAbandoned (.arena arenaIdx b)) lists :=
  h.changeMark (markAbandoned_arena hbit) hbit hin

theorem AbandonLaw.markOs (h : AbandonLaw st lists)
    (hnot : ¬st.Abandoned (.os address)) :
    AbandonLaw (st.markAbandoned (.os address))
      (Function.update lists (st.subproc (.os address))
        (lists (st.subproc (.os address)) ++ [address])) ∧
      SamePlaces st (st.markAbandoned (.os address)) := by
  have hout := not_mem_of_not_abandoned h hnot
  have hmem : ∀ {other i : ℕ}, other ∈ Function.update lists
      (st.subproc (.os address))
        (lists (st.subproc (.os address)) ++ [address]) i ↔
      other ∈ lists i ∨ (i = st.subproc (.os address) ∧ other = address) := by
    intro other i
    by_cases hi : i = st.subproc (.os address)
    · rw [hi, Function.update_self, List.mem_append, List.mem_singleton]
      simp
    · rw [Function.update_of_ne hi]
      simp [hi]
  refine ⟨?_, rfl, rfl, rfl, rfl⟩
  unfold AbandonState.markAbandoned AbandonState.osMarkAbandoned
  constructor
  · exact h.family.pushBack _ hout
  · intro i other hother
    rcases hmem.mp hother with hold | ⟨hi, hsame⟩
    · exact h.subproc i other hold
    · rw [hi, hsame]
  · intro other hother
    have hold : ∀ i, other ∉ lists i := fun i hin =>
      hother i (hmem.mpr (Or.inl hin))
    have hne : address ≠ other := by
      rintro rfl
      exact hother _ (hmem.mpr (Or.inr ⟨rfl, rfl⟩))
    have hnotLast : (st.osList (st.subproc (.os address))).last ≠
        some other := by
      rw [(h.family.queue _).last]
      intro heq
      exact hold _ (List.mem_of_getLast? heq)
    dsimp only
    rw [pushBackLinks_next, pushBackLinks_prev, if_neg hnotLast,
      if_neg hne, if_neg hne]
    exact h.unlinked other hold
  · exact h.inRange
  · intro i
    dsimp only
    by_cases hi : i = st.subproc (.os address)
    · rw [hi, Function.update_self, Function.update_self, h.listCount,
        List.length_append, List.length_singleton]
    · rw [Function.update_of_ne hi, Function.update_of_ne hi]
      exact h.listCount i
  · intro i
    have hcount := h.count i
    dsimp only
    by_cases hi : i = st.subproc (.os address)
    · rw [← hi, Function.update_self, Function.update_self,
        List.length_append, List.length_singleton, hcount, Nat.add_assoc]
      rfl
    · rw [Function.update_of_ne hi, Function.update_of_ne hi]
      exact hcount

structure RegistryStep (marked : Option SegmentId) (st st' : AbandonState) :
    Prop where
  law : ∃ lists, AbandonLaw st' lists
  subproc : st'.subproc = st.subproc
  inArenas : ∀ segment, st'.InArenas segment ↔ st.InArenas segment
  abandoned : ∀ segment, st'.Abandoned segment →
    st.Abandoned segment ∨ marked = some segment

theorem AbandonLaw.refl (h : AbandonLaw st lists) (marked : Option SegmentId) :
    RegistryStep marked st st :=
  ⟨⟨lists, h⟩, rfl, fun _ => Iff.rfl, fun _ => Or.inl⟩

theorem AbandonLaw.changesMark {value : Bool} {marked : Option SegmentId}
    {st' : AbandonState} (h : AbandonLaw st lists)
    (hchange : MarkChange arenaIdx b value st st')
    (hold : bit (st.blocksAbandoned arenaIdx) b = !value)
    (hin : st.InArenas (.arena arenaIdx b))
    (hmarked : value = true → marked = some (.arena arenaIdx b)) :
    RegistryStep marked st st' := by
  refine ⟨⟨lists, h.changeMark hchange hold hin⟩, hchange.subproc,
    hchange.inArenas, ?_⟩
  intro segment hsegment
  cases segment with
  | arena i c =>
      have hbit : bit (st'.blocksAbandoned i) c = true := hsegment
      rw [hchange.bits] at hbit
      split at hbit
      · next hplace =>
          rw [hplace.1, hplace.2]
          exact Or.inr (hmarked hbit)
      · exact Or.inl hbit
  | os address =>
      left
      unfold AbandonState.Abandoned at hsegment ⊢
      rw [hchange.links, hchange.osList, hchange.subproc] at hsegment
      exact hsegment

theorem AbandonLaw.changesList {marked : Option SegmentId}
    {st' : AbandonState} {lists' : ℕ → List ℕ} (h : AbandonLaw st lists)
    (h' : AbandonLaw st' lists') (hplaces : SamePlaces st st')
    (hmem : ∀ subproc, ∀ address ∈ lists' subproc,
      address ∈ lists subproc ∨ marked = some (.os address)) :
    RegistryStep marked st st' := by
  refine ⟨⟨lists', h'⟩, hplaces.subproc, ?_, ?_⟩
  · intro segment
    unfold AbandonState.InArenas AbandonState.fields
    rw [hplaces.arenaCount, hplaces.fieldCount]
  intro segment hsegment
  cases segment with
  | arena i c =>
      left
      have hbit : bit (st'.blocksAbandoned i) c = true := hsegment
      rw [hplaces.blocksAbandoned] at hbit
      exact hbit
  | os address =>
      rw [abandoned_os_iff h', hplaces.subproc] at hsegment
      rw [abandoned_os_iff h]
      exact hmem _ address hsegment

theorem AbandonLaw.osClears {takeLock : Bool} (h : AbandonLaw st lists)
    (hmem : address ∈ lists subproc) :
    RegistryStep none st (st.osClearAbandoned address takeLock self).2 := by
  obtain ⟨-, hlaw, hplaces⟩ :=
    @osClearAbandoned_of_mem _ _ _ _ self takeLock h hmem
  apply h.changesList hlaw hplaces
  intro i other hother
  left
  by_cases hi : i = subproc
  · rw [hi, Function.update_self] at hother
    rw [hi]
    exact List.mem_of_mem_erase hother
  · rw [Function.update_of_ne hi] at hother
    exact hother

theorem AbandonLaw.marks {segment : SegmentId} (h : AbandonLaw st lists)
    (hin : st.InArenas segment) (hnot : ¬st.Abandoned segment) :
    RegistryStep (some segment) st (st.markAbandoned segment) ∧
      (st.markAbandoned segment).Abandoned segment := by
  cases segment with
  | arena i c =>
      have hbit : bit (st.blocksAbandoned i) c = false :=
        Bool.eq_false_iff.mpr hnot
      have hchange := markAbandoned_arena hbit
      refine ⟨h.changesMark hchange hbit hin fun _ => rfl, ?_⟩
      have hset := hchange.bits i c
      rw [if_pos ⟨rfl, rfl⟩] at hset
      exact hset
  | os other =>
      obtain ⟨hlaw, hplaces⟩ := h.markOs hnot
      refine ⟨h.changesList hlaw hplaces ?_, ?_⟩
      · intro i address hmem
        by_cases hi : i = st.subproc (.os other)
        · rw [hi, Function.update_self, List.mem_append,
            List.mem_singleton] at hmem
          rcases hmem with hmem | rfl
          · rw [hi]
            exact Or.inl hmem
          · exact Or.inr rfl
        · rw [Function.update_of_ne hi] at hmem
          exact Or.inl hmem
      · rw [abandoned_os_iff hlaw, hplaces.subproc, Function.update_self]
        exact List.mem_append_right _ (List.mem_singleton_self other)

end Operations

end Palloc
