import Mathlib.Data.Nat.Notation

/-!
# Walks over an array with steps of any length

A loop reads an array of `stop` entries from some index on.  Its body works on
a state and says where the next entry starts; the body may fail.
-/

namespace IndexWalk

variable {σ : Type*}

/-- The loop; `none` when its body fails or the fuel runs out. -/
def walk (stop : ℕ) (body : ℕ → σ → Option (ℕ × σ)) :
    (fuel : ℕ) → ℕ → σ → Option σ
  | 0, _, _ => none
  | fuel + 1, idx, s =>
      if idx < stop then
        match body idx s with
        | none => none
        | some (idx, s) => walk stop body fuel idx s
      else some s

/-- A body that keeps an invariant and moves on makes a loop that ends with
the invariant. -/
theorem walk_induction {stop : ℕ} {body : ℕ → σ → Option (ℕ × σ)}
    {Inv : ℕ → σ → Prop}
    (hbody : ∀ idx s, idx < stop → Inv idx s → ∃ idx' s',
      body idx s = some (idx', s') ∧ idx < idx' ∧ Inv idx' s')
    {fuel idx : ℕ} {s : σ} (hstart : Inv idx s) (hfuel : stop - idx < fuel) :
    ∃ idx' s', walk stop body fuel idx s = some s' ∧ stop ≤ idx' ∧
      Inv idx' s' := by
  induction fuel generalizing idx s with
  | zero => exact absurd hfuel (Nat.not_lt_zero _)
  | succ fuel ih =>
      by_cases hlt : idx < stop
      · obtain ⟨idx', s', hresult, hmove, hinv⟩ := hbody idx s hlt hstart
        obtain ⟨last, final, hwalk, hstop, hend⟩ := ih hinv (by omega)
        refine ⟨last, final, ?_, hstop, hend⟩
        simp only [walk, if_pos hlt, hresult, hwalk]
      · refine ⟨idx, s, ?_, Nat.le_of_not_lt hlt, hstart⟩
        simp only [walk, if_neg hlt]

end IndexWalk
