import Palloc.BitmapProtocolSteps
import Mathlib.Data.Fin.VecNotation

/-!
# Concurrent claims are exclusive

In every interleaving of the calls the bits that a call holds are set and held
by no other call.
-/

namespace Palloc

open BitFields BitOwnership

variable {ι : Type*} [DecidableEq ι] {bitmapFields : ℕ}
variable {op : ι → BitmapOp ι} {st st' : BitmapState ι} {i j : ι}

structure BitmapInvariant (bitmapFields : ℕ) (op : ι → BitmapOp ι)
    (st : BitmapState ι) : Prop where
  wf : ∀ i, (st.pc i).Wf bitmapFields (op i).request
  exclusive : Exclusive (bit st.bitmap) fun i => (st.pc i).held
  balanced : ∀ i, (op i).request ≠ none → st.pc i ≠ .released →
    Balanced (st.sets i) (st.clears i) (st.pc i).held

theorem held_goto (st : BitmapState ι) (i : ι) (pc : BitmapPc)
    (bitmap : Fields) :
    (fun j => ((st.goto i pc bitmap).pc j).held) =
      Function.update (fun j => (st.pc j).held) i pc.held := by
  funext j
  show (Function.update st.pc i pc j).held = _
  by_cases hji : j = i
  · rw [hji, Function.update_self, Function.update_self]
  · rw [Function.update_of_ne hji, Function.update_of_ne hji]

/-! ## Steps -/

theorem BitmapInvariant.goto (hinv : BitmapInvariant bitmapFields op st)
    {next : BitmapPc × Fields}
    (hnext : Advances bitmapFields (op i).request st.bitmap (st.pc i) next)
    (hreleased : st.pc i = .released → next.1 = .released) :
    BitmapInvariant bitmapFields op (st.goto i next.1 next.2) := by
  constructor
  · intro j
    show (Function.update st.pc i next.1 j).Wf _ _
    by_cases hji : j = i
    · rw [hji, Function.update_self]
      exact hnext.1
    · rw [Function.update_of_ne hji]
      exact hinv.wf j
  · rw [held_goto]
    exact hinv.exclusive.move hnext.2
  · intro j hrequest hpc
    by_cases hji : j = i
    · subst hji
      have hpc' : next.1 ≠ .released := by
        intro heq
        apply hpc
        show Function.update st.pc j next.1 j = _
        rw [Function.update_self, heq]
      have hbal := hinv.balanced j hrequest (mt hreleased hpc')
      show Balanced (Function.update st.sets j _ j)
        (Function.update st.clears j _ j)
        (Function.update st.pc j next.1 j).held
      rw [Function.update_self, Function.update_self, Function.update_self]
      exact hbal.move hnext.2
    · have hpc' : st.pc j ≠ .released := by
        intro heq
        apply hpc
        show Function.update st.pc i next.1 j = _
        rw [Function.update_of_ne hji, heq]
      show Balanced (Function.update st.sets i _ j)
        (Function.update st.clears i _ j)
        (Function.update st.pc i next.1 j).held
      rw [Function.update_of_ne hji, Function.update_of_ne hji,
        Function.update_of_ne hji]
      exact hinv.balanced j hrequest hpc'

omit [DecidableEq ι] in
theorem entry_wf {pc : BitmapPc} (hvalid : (op i).Valid bitmapFields)
    (hentry : (op i).entry = some pc) :
    pc.GoesTo bitmapFields (op i).request fun _ => false := by
  cases hop : op i with
  | tryFindClaimField idx count =>
      rw [hop] at hvalid hentry
      cases hentry
      exact ⟨⟨rfl, hvalid⟩, rfl⟩
  | tryFindClaimFieldAcross idx count =>
      rw [hop] at hvalid hentry
      cases hentry
      exact ⟨⟨rfl, hvalid.1, hvalid.2⟩, rfl⟩
  | tryClaim count bitmapIdx =>
      rw [hop] at hvalid hentry
      cases hentry
      exact ⟨⟨rfl, hvalid⟩, rfl⟩
  | unclaim target =>
      rw [hop] at hentry
      cases hentry
  | unclaimAcross target =>
      rw [hop] at hentry
      cases hentry

/-- The call that releases a range takes over exactly its bits. -/
theorem BitmapInvariant.release (hinv : BitmapInvariant bitmapFields op st)
    {target : ι} {bitmapIdx count : ℕ} {masks : List (ℕ × BitVec 64)}
    (hrequest : (op i).request = none)
    (hclaimed : st.pc target = .claimed bitmapIdx count)
    (hrun : MaskRun masks bitmapIdx (bitmapIdx + count)) :
    BitmapInvariant bitmapFields op (st.release target i masks) := by
  have htarget := hinv.wf target
  rw [hclaimed] at htarget
  have hheld : (BitmapPc.clear masks).held = (st.pc target).held := by
    rw [hclaimed]
    exact clear_held hrun
  have hpc : ∀ j, (st.release target i masks).pc j =
      if j = i then .clear masks
      else if j = target then .released else st.pc j := by
    intro j
    show Function.update (Function.update st.pc target _) i _ j = _
    rw [Function.update_apply, Function.update_apply]
  constructor
  · intro j
    rw [hpc j]
    split
    · rename_i hji
      rw [hji]
      exact ⟨hrequest, _, _, hrun⟩
    split
    · rename_i hjt
      rw [hjt]
      show (op target).request ≠ none
      rw [htarget.1]
      exact Option.some_ne_none count
    · exact hinv.wf j
  · have hall : (fun j => ((st.release target i masks).pc j).held) =
        Function.update (Function.update (fun j => (st.pc j).held) target
          BitmapPc.released.held) i (st.pc target).held := by
      funext j
      rw [hpc j, Function.update_apply, Function.update_apply]
      split
      · exact hheld
      split
      · rfl
      · rfl
    rw [hall]
    exact hinv.exclusive.handOver fun _ => rfl
  · intro j hclaims hreleased
    rw [hpc j] at hreleased ⊢
    by_cases hji : j = i
    · rw [hji] at hclaims
      exact absurd hrequest hclaims
    · rw [if_neg hji] at hreleased ⊢
      by_cases hjt : j = target
      · rw [if_pos hjt] at hreleased
        exact absurd rfl hreleased
      · rw [if_neg hjt] at hreleased ⊢
        exact hinv.balanced j hclaims hreleased

theorem BitmapInvariant.step (hvalid : ∀ i, (op i).Valid bitmapFields)
    (hinv : BitmapInvariant bitmapFields op st)
    (hstep : BitmapStep bitmapFields op st i st') :
    BitmapInvariant bitmapFields op st' := by
  cases hstep with
  | @enter pc hidle hentry =>
      have hgoes := entry_wf (hvalid i) hentry
      apply @BitmapInvariant.goto ι _ bitmapFields op st i hinv
        (pc, st.bitmap)
      · apply advances_load
        rw [hidle]
        exact hgoes
      · intro hreleased
        rw [hidle] at hreleased
        cases hreleased
  | access spurious =>
      apply hinv.goto
      · exact access_advances spurious (hinv.wf i) (hinv.exclusive.set i)
      · intro hreleased
        rw [hreleased]
        rfl
  | @unclaim target bitmapIdx count hidle hop hclaimed hfit =>
      apply hinv.release (by rw [hop]; rfl) hclaimed
      exact .single _ hfit (Nat.div_add_mod bitmapIdx 64) rfl
  | @unclaimAcross target bitmapIdx count hidle hop hclaimed =>
      exact hinv.release (by rw [hop]; rfl) hclaimed acrossMasks_run

theorem BitmapReachable.invariant (hvalid : ∀ i, (op i).Valid bitmapFields)
    (hreach : BitmapReachable bitmapFields op st) :
    BitmapInvariant bitmapFields op st := by
  induction hreach with
  | initial bitmap =>
      constructor
      · exact fun _ => trivial
      · constructor
        · intro i b hb
          cases hb
        · intro i j b hb
          cases hb
      · intro i _ _ b
        rfl
  | step _ hstep ih => exact ih.step hvalid hstep

theorem BitmapInvariant.frame (hinv : BitmapInvariant bitmapFields op st)
    (hstep : BitmapStep bitmapFields op st i st') (hne : j ≠ i) {b : ℕ}
    (hheld : (st.pc j).held b = true) :
    bit st'.bitmap b = bit st.bitmap b := by
  cases hstep with
  | enter hidle hentry => rfl
  | access spurious =>
      have hnext := access_advances spurious (hinv.wf i)
        (hinv.exclusive.set i)
      exact hinv.exclusive.frame hnext.2 hne hheld
  | unclaim hidle hop hclaimed hfit => rfl
  | unclaimAcross hidle hop hclaimed => rfl

/-! ## Exclusive claims -/

structure ClaimsExclusive (bitmapFields : ℕ) (op : ι → BitmapOp ι)
    (st : BitmapState ι) : Prop where
  /-- A successful claim has all its bits, and they are set. -/
  claimed : ∀ i bitmapIdx count, st.pc i = .claimed bitmapIdx count →
    (op i).request = some count ∧
      bitmapIdx + count ≤ 64 * bitmapFields ∧
      Full st.bitmap bitmapIdx (bitmapIdx + count)
  disjoint : ∀ i j, i ≠ j → ∀ bitmapIdx count bitmapIdx' count',
    st.pc i = .claimed bitmapIdx count →
    st.pc j = .claimed bitmapIdx' count' →
    bitmapIdx + count ≤ bitmapIdx' ∨ bitmapIdx' + count' ≤ bitmapIdx
  /-- A claim clears only what it set before. -/
  clears_le : ∀ i, (op i).request ≠ none → st.pc i ≠ .released →
    ∀ b, st.clears i b ≤ st.sets i b
  /-- A claim that failed, or was rolled back and starts again, has cleared
  all that it set. -/
  undone : ∀ i, (st.pc i = .failed ∨ ∃ call, st.pc i = .acrossLoad call) →
    ∀ b, st.clears i b = st.sets i b
  /-- No step changes a bit of another call. -/
  frame : ∀ i st', BitmapStep bitmapFields op st i st' → ∀ j, j ≠ i →
    ∀ b, (st.pc j).held b = true → bit st'.bitmap b = bit st.bitmap b

omit [DecidableEq ι] in
theorem BitmapInvariant.disjoint (hinv : BitmapInvariant bitmapFields op st)
    (hne : i ≠ j) {bitmapIdx count bitmapIdx' count' : ℕ}
    (hi : st.pc i = .claimed bitmapIdx count)
    (hj : st.pc j = .claimed bitmapIdx' count') :
    bitmapIdx + count ≤ bitmapIdx' ∨ bitmapIdx' + count' ≤ bitmapIdx := by
  by_contra hoverlap
  have hwf := hinv.wf i
  have hwf' := hinv.wf j
  rw [hi] at hwf
  rw [hj] at hwf'
  rcases hwf with ⟨-, hpos, -⟩
  rcases hwf' with ⟨-, hpos', -⟩
  have hboth := hinv.exclusive.unique i j (max bitmapIdx bitmapIdx')
  rw [hi, hj] at hboth
  apply hne
  apply hboth
  · apply decide_eq_true
    omega
  · apply decide_eq_true
    omega

theorem bitmap_claims_exclusive {bitmapFields : ℕ} {op : ι → BitmapOp ι}
    {st : BitmapState ι} (hvalid : ∀ i, (op i).Valid bitmapFields)
    (hreach : BitmapReachable bitmapFields op st) :
    ClaimsExclusive bitmapFields op st := by
  have hinv := hreach.invariant hvalid
  constructor
  · intro i bitmapIdx count hpc
    have hwf := hinv.wf i
    have hset := hinv.exclusive.set i
    rw [hpc] at hwf hset
    exact ⟨hwf.1, hwf.2.2, fun b hlo hhi =>
      hset b (decide_eq_true ⟨hlo, hhi⟩)⟩
  · intro i j hne bitmapIdx count bitmapIdx' count' hi hj
    exact hinv.disjoint hne hi hj
  · intro i hrequest hreleased b
    rw [hinv.balanced i hrequest hreleased b]
    exact Nat.le_add_right _ _
  · intro i hpc b
    have hwf := hinv.wf i
    have hbal := hinv.balanced i
    rcases hpc with hpc | ⟨call, hpc⟩
    · rw [hpc] at hwf hbal
      exact (hbal hwf (by simp) b).symm
    · rw [hpc] at hwf hbal
      have hrequest : (op i).request ≠ none := by
        rw [hwf.request_eq]
        exact Option.some_ne_none _
      exact (hbal hrequest (by simp) b).symm
  · intro i st' hstep j hne b hheld
    exact hinv.frame hstep hne hheld

/-- Call `i` alone makes `n` accesses. -/
def BitmapState.accesses (bitmapFields : ℕ) (i : ι) :
    ℕ → BitmapState ι → BitmapState ι
  | 0, st => st
  | n + 1, st =>
      accesses bitmapFields i n
        (st.goto i ((st.pc i).access bitmapFields st.bitmap false).1
          ((st.pc i).access bitmapFields st.bitmap false).2)

theorem BitmapReachable.accesses (i : ι) (n : ℕ)
    (hreach : BitmapReachable bitmapFields op st) :
    BitmapReachable bitmapFields op (st.accesses bitmapFields i n) := by
  induction n generalizing st with
  | zero => exact hreach
  | succ n ih => exact ih (hreach.step (.access false))

/-- A claim of three bits and one of 70 bits in two fields. -/
def twoClaims : Fin 2 → BitmapOp (Fin 2) :=
  ![.tryFindClaimField 0 3, .tryFindClaimFieldAcross 0 70]

/-- The second call begins after the first one has read the field. -/
def twoClaimsState : BitmapState (Fin 2) :=
  let st : BitmapState (Fin 2) := .initial fun _ => 0
  let st := (st.goto 0 (.findLoad 0 3) st.bitmap).accesses 2 0 1
  let st := (st.goto 1 (.acrossLoad ⟨0, 70, 0⟩) st.bitmap).accesses 2 0 1
  st.accesses 2 1 6

theorem twoClaims_reachable :
    BitmapReachable 2 twoClaims twoClaimsState := by
  unfold twoClaimsState
  apply BitmapReachable.accesses
  apply BitmapReachable.accesses
  apply BitmapReachable.step _ (.enter rfl rfl)
  apply BitmapReachable.accesses
  exact .step (.initial _) (.enter rfl rfl)

theorem twoClaims_valid (i : Fin 2) : (twoClaims i).Valid 2 := by
  fin_cases i
  · exact ⟨by decide, by decide, by decide⟩
  · exact ⟨by decide, by decide⟩

theorem bitmap_claims_exclusive_two :
    twoClaimsState.pc 0 = .claimed 0 3 ∧ twoClaimsState.pc 1 = .claimed 3 70 ∧
      ClaimsExclusive 2 twoClaims twoClaimsState :=
  ⟨by decide +kernel, by decide +kernel,
    bitmap_claims_exclusive twoClaims_valid twoClaims_reachable⟩

end Palloc
