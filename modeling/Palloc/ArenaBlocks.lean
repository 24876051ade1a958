import Palloc.Arena
import Palloc.BitmapRange
import Palloc.BitmapSearch

/-!
# The blocks of an arena

An arena hands out ranges of blocks that are not in use.  Purging claims
blocks that are free and releases them again, so it leaves the blocks in use
as they are.
-/

namespace Palloc

open BitFields MachineWord

variable {arena arena' : Arena} {env : ArenaEnv} {bitmap bitmap' : Fields}
variable {count b lo hi : ℕ}

/-! ## Single claims -/

theorem index_split (b : ℕ) : 64 * (b / 64) + b % 64 = b := by
  omega

theorem bitmapTryClaim_spec (bitmap : Fields)
    (hfit : b % 64 + count ≤ 64) :
    (bitmapTryClaim bitmap count b = (false, bitmap) ∧
      ¬ Clear bitmap b (b + count)) ∨
    ∃ bitmap', bitmapTryClaim bitmap count b = (true, bitmap') ∧
      Clear bitmap b (b + count) ∧ Sets bitmap bitmap' b (b + count) := by
  have hclear := @and_ones_eq_zero_iff bitmap (b / 64) _ _ hfit
  have hsets := @sets_or bitmap (b / 64) _ _ hfit
  rw [index_split] at hclear hsets
  unfold bitmapTryClaim
  by_cases hbusy : bitmap (b / 64) &&& ones count (b % 64) ≠ 0
  · rw [if_pos hbusy]
    exact Or.inl ⟨rfl, fun h => hbusy (hclear.mpr h)⟩
  · rw [if_neg hbusy]
    exact Or.inr ⟨_, rfl, hclear.mp (not_not.mp hbusy), hsets⟩

theorem bitmapUnclaim_spec (bitmap : Fields) (hfit : b % 64 + count ≤ 64) :
    Clears bitmap (bitmapUnclaim bitmap count b).2 b (b + count) := by
  have hclears := @clears_and bitmap (b / 64) _ _ hfit
  rw [index_split] at hclears
  exact hclears

theorem bitmapClaim_spec (bitmap : Fields) (hfit : b % 64 + count ≤ 64) :
    Sets bitmap (bitmapClaim bitmap count b).2 b (b + count) := by
  have hsets := @sets_or bitmap (b / 64) _ _ hfit
  rw [index_split] at hsets
  exact hsets

/-- The longest prefix that is free. -/
theorem claimLongest_spec (inuse : Fields) {bitlen : ℕ}
    (hfit : b % 64 + bitlen ≤ 64) :
    ∃ len inuse', Arena.claimLongest inuse b bitlen = (len, inuse') ∧
      len ≤ bitlen ∧ Clear inuse b (b + len) ∧
      Sets inuse inuse' b (b + len) ∧
      (len < bitlen → bit inuse (b + len) = true) := by
  induction bitlen with
  | zero =>
      exact ⟨0, inuse, rfl, le_rfl, fun c hc hc' => by omega,
        sets_empty inuse b, fun h => by omega⟩
  | succ bitlen ih =>
      unfold Arena.claimLongest
      rcases bitmapTryClaim_spec inuse hfit with
        ⟨heq, hbusy⟩ | ⟨inuse', heq, hclear, hsets⟩
      · rw [heq]
        rcases ih (by omega) with ⟨len, inuse', hrest, hle, hclear, hsets, hnext⟩
        refine ⟨len, inuse', hrest, by omega, hclear, hsets, ?_⟩
        intro hlt
        by_cases hlast : len < bitlen
        · exact hnext hlast
        · -- all but the last block are free, so the last one is in use
          obtain rfl : len = bitlen := by omega
          by_contra hfree
          apply hbusy
          intro c hc hc'
          by_cases hin : c < b + len
          · exact hclear c hc hin
          · obtain rfl : c = b + len := by omega
            exact Bool.not_eq_true _ ▸ hfree
      · rw [heq]
        exact ⟨bitlen + 1, inuse', rfl, le_rfl, hclear, hsets,
          fun h => by omega⟩

/-! ## What purging leaves alone -/

structure ArenaView where
  id : ℕ
  start : ℕ
  blockCount : ℕ
  fieldCount : ℕ
  blocksInuse : Fields

def Arena.view (arena : Arena) : ArenaView :=
  ⟨arena.id, arena.start, arena.blockCount, arena.fieldCount,
    arena.blocksInuse⟩

theorem Arena.purge_view (arena : Arena) (env : ArenaEnv)
    (bitmapIdx blocks : ℕ) :
    (arena.purge env bitmapIdx blocks).view = arena.view := rfl

theorem Arena.purgeRange_view (env : ArenaEnv) (idx endidx bitlen : ℕ)
    (purge : BitVec 64) (fuel bitidx : ℕ) (allPurged : Bool) (arena : Arena) :
    (purgeRange env idx endidx bitlen purge fuel bitidx allPurged
      arena).2.view = arena.view := by
  induction fuel generalizing bitidx allPurged arena with
  | zero => rfl
  | succ fuel ih =>
      unfold purgeRange
      dsimp only
      split
      · split
        · rw [ih, purge_view]
        · rw [ih]
      · rfl

theorem countOnes_le (purge : BitVec 64) (endidx fuel bitidx : ℕ) :
    bitidx + Arena.countOnes purge endidx fuel bitidx ≤ max bitidx endidx := by
  induction fuel generalizing bitidx with
  | zero => exact le_max_left _ _
  | succ fuel ih =>
      unfold Arena.countOnes
      split
      · rename_i hone
        have hrest := ih (bitidx + 1)
        omega
      · omega

theorem Arena.purgeRuns_view (env : ArenaEnv) (i fuel bitidx : ℕ)
    (purge : BitVec 64) (anyPurged fullPurge : Bool) (arena : Arena) :
    (purgeRuns env i fuel bitidx purge anyPurged fullPurge
      arena).2.2.view = arena.view := by
  induction fuel generalizing bitidx purge anyPurged fullPurge arena with
  | zero => rfl
  | succ fuel ih =>
      unfold purgeRuns
      split
      · rename_i hbitidx
        have hmod : (64 * i + bitidx) % 64 = bitidx := by omega
        have hle := countOnes_le purge 64 64 bitidx
        have hfit : (64 * i + bitidx) % 64 + countOnes purge 64 64 bitidx ≤
            64 := by omega
        rcases claimLongest_spec arena.blocksInuse hfit with
          ⟨len, inuse, heq, hlen, hclear, hsets, -⟩
        rw [heq]
        dsimp only
        split
        · have hrange := purgeRange_view env i (bitidx + len) len
            (purgeField { arena with blocksInuse := inuse } i) 64 bitidx false
            { arena with blocksInuse := inuse }
          have hrestored : (bitmapUnclaim inuse len (64 * i + bitidx)).2 =
              arena.blocksInuse :=
            hsets.undo (bitmapUnclaim_spec inuse (by omega)) hclear
          rw [ih]
          unfold Arena.view at hrange ⊢
          rw [ArenaView.mk.injEq] at hrange
          rcases hrange with ⟨hid, hstart, hblocks, hfields, hinuse⟩
          dsimp only at *
          rw [hid, hstart, hblocks, hfields, hinuse, hrestored]
        · rw [ih]
      · rfl

theorem Arena.purgeFields_view (env : ArenaEnv) (left i : ℕ)
    (anyPurged fullPurge : Bool) (arena : Arena) :
    (purgeFields env left i anyPurged fullPurge arena).2.2.view =
      arena.view := by
  induction left generalizing i anyPurged fullPurge arena with
  | zero => rfl
  | succ left ih =>
      unfold purgeFields
      dsimp only
      split
      · rw [ih, purgeRuns_view]
      · rw [ih]

theorem Arena.tryPurge_view (arena : Arena) (env : ArenaEnv) (force : Bool) :
    (arena.tryPurge env force).2.view = arena.view := by
  unfold tryPurge
  split
  · rfl
  split
  · rfl
  have hfields := purgeFields_view env arena.fieldCount 0 false true
    { arena with purgeExpire := 0 }
  dsimp only
  split
  · exact hfields
  · exact hfields

theorem purgeLoop_view (env : ArenaEnv) (force : Bool) (arenas : List Arena)
    (maxPurgeCount : ℕ) :
    (Arenas.purgeLoop env force arenas maxPurgeCount).2.map Arena.view =
      arenas.map Arena.view := by
  induction arenas generalizing maxPurgeCount with
  | nil => rfl
  | cons arena rest ih =>
      have hhead := arena.tryPurge_view env force
      unfold Arenas.purgeLoop
      cases hpurge : arena.tryPurge env force with
      | mk any arena' =>
          rw [hpurge] at hhead
          dsimp only at hhead
          cases any with
          | true =>
              dsimp only
              split
              · rw [List.map_cons, List.map_cons, hhead]
              · rw [List.map_cons, List.map_cons, hhead, ih]
          | false =>
              dsimp only
              rw [List.map_cons, List.map_cons, hhead, ih]

theorem Arenas.tryPurge_view (st : Arenas) (env : ArenaEnv)
    (force visitAll : Bool) :
    (st.tryPurge env force visitAll).arenas.map Arena.view =
      st.arenas.map Arena.view := by
  unfold Arenas.tryPurge
  split
  · rfl
  split
  · rfl
  split
  · rfl
  exact purgeLoop_view env force st.arenas _

theorem Arenas.setArena_view (st : Arenas) {index : ℕ}
    (harena : st.arenas[index]? = some arena)
    (hview : arena'.view = arena.view) :
    (st.setArena index arena').arenas.map Arena.view =
      st.arenas.map Arena.view := by
  show (st.arenas.set index arena').map Arena.view = _
  rw [List.map_set, hview]
  apply List.ext_getElem?
  intro i
  rw [List.getElem?_set]
  split
  · rename_i heq
    subst heq
    rw [List.getElem?_map, harena]
    have hlt : index < st.arenas.length := by
      by_contra hge
      rw [List.getElem?_eq_none (not_lt.mp hge)] at harena
      cases harena
    simp [hlt]
  · rfl

theorem Arenas.schedulePurge_view (st : Arenas) (env : ArenaEnv) {index : ℕ}
    (bitmapIdx blocks : ℕ) (harena : st.arenas[index]? = some arena)
    (hview : arena'.view = arena.view) :
    (st.schedulePurge env index arena' bitmapIdx blocks).arenas.map
      Arena.view = st.arenas.map Arena.view := by
  unfold Arenas.schedulePurge
  split
  · rfl
  split
  · exact st.setArena_view harena (by rw [Arena.purge_view, hview])
  · exact st.setArena_view harena hview

end Palloc
