import Mathlib.Logic.Function.Basic
import Mathlib.Tactic

/-!
# Bits that are owned by whoever set them

Several parties set and clear the bits of one array.  A party that only sets
bits that are clear, and only clears bits that it holds, leaves the bits of all
others alone; so no bit ever has two holders.
-/

namespace BitOwnership

variable {ι β : Type*}

structure Exclusive (bits : β → Bool) (held : ι → β → Bool) : Prop where
  set : ∀ i b, held i b = true → bits b = true
  unique : ∀ i j b, held i b = true → held j b = true → i = j

/-- The bits that change are those that the party starts to hold, which were
clear and become set, and those that it stops to hold, which become clear. -/
def Moves (bits bits' held held' : β → Bool) : Prop :=
  ∀ b, if held b = held' b then bits' b = bits b
    else bits b = held b ∧ bits' b = held' b

variable {bits bits' h h' : β → Bool} {held : ι → β → Bool} {b : β}

theorem Moves.refl (bits h : β → Bool) : Moves bits bits h h := by
  intro b
  rw [if_pos rfl]

theorem Moves.take (p : β → Bool) (hclear : ∀ b, p b = true → bits b = false)
    (hset : ∀ b, bits' b = (bits b || p b))
    (hheld : ∀ b, h' b = (h b || p b))
    (hown : ∀ b, h b = true → bits b = true) : Moves bits bits' h h' := by
  intro b
  rw [hset b, hheld b]
  cases hp : p b with
  | false => simp
  | true =>
      have hzero := hclear b hp
      have hfree : h b = false := by
        rw [← Bool.not_eq_true]
        intro hb
        rw [hown b hb] at hzero
        cases hzero
      rw [hfree, hzero]
      simp

theorem Moves.drop (p : β → Bool) (hin : ∀ b, p b = true → h b = true)
    (hclear : ∀ b, bits' b = (bits b && !p b))
    (hheld : ∀ b, h' b = (h b && !p b))
    (hown : ∀ b, h b = true → bits b = true) : Moves bits bits' h h' := by
  intro b
  rw [hclear b, hheld b]
  cases hp : p b with
  | false => simp
  | true =>
      have hb := hin b hp
      rw [hb, hown b hb]
      simp

theorem Moves.of_eq (hmoves : Moves bits bits' h h') (heq : h b = h' b) :
    bits' b = bits b := by
  have hb := hmoves b
  rw [if_pos heq] at hb
  exact hb

theorem Moves.of_ne (hmoves : Moves bits bits' h h') (hne : h b ≠ h' b) :
    bits b = h b ∧ bits' b = h' b := by
  have hb := hmoves b
  rw [if_neg hne] at hb
  exact hb

theorem Moves.changed (hmoves : Moves bits bits' h h')
    (hne : bits' b ≠ bits b) :
    (bits b = h b ∧ bits' b = h' b) ∧ h b ≠ h' b := by
  have hheld : h b ≠ h' b := fun heq => hne (hmoves.of_eq heq)
  exact ⟨hmoves.of_ne hheld, hheld⟩

variable {i j : ι}

theorem Exclusive.frame (hexcl : Exclusive bits held)
    (hmoves : Moves bits bits' (held i) h') (hne : j ≠ i)
    (hheld : held j b = true) : bits' b = bits b := by
  by_contra hchange
  rcases hmoves.changed hchange with ⟨⟨hbits, -⟩, -⟩
  have hset := hexcl.set j b hheld
  rw [hset] at hbits
  exact hne (hexcl.unique j i b hheld hbits.symm)

variable [DecidableEq ι]

theorem Exclusive.move (hexcl : Exclusive bits held)
    (hmoves : Moves bits bits' (held i) h') :
    Exclusive bits' (Function.update held i h') := by
  have hothers : ∀ j b, j ≠ i → held j b = true → h' b = true → False := by
    intro j b hne hj hi
    have hset := hexcl.set j b hj
    by_cases heq : held i b = h' b
    · exact hne (hexcl.unique j i b hj (heq.trans hi))
    · rcases hmoves.of_ne heq with ⟨hbits, -⟩
      rw [hset] at hbits
      exact hne (hexcl.unique j i b hj hbits.symm)
  constructor
  · intro j b hj
    by_cases hji : j = i
    · rw [hji, Function.update_self] at hj
      by_cases heq : held i b = h' b
      · rw [hmoves.of_eq heq]
        exact hexcl.set i b (heq.trans hj)
      · rw [(hmoves.of_ne heq).2, hj]
    · rw [Function.update_of_ne hji] at hj
      rw [hexcl.frame hmoves hji hj]
      exact hexcl.set j b hj
  · intro j k b hj hk
    by_cases hji : j = i
    · by_cases hki : k = i
      · rw [hji, hki]
      · rw [hji, Function.update_self] at hj
        rw [Function.update_of_ne hki] at hk
        exact (hothers k b hki hk hj).elim
    · rw [Function.update_of_ne hji] at hj
      by_cases hki : k = i
      · rw [hki, Function.update_self] at hk
        exact (hothers j b hji hj hk).elim
      · rw [Function.update_of_ne hki] at hk
        exact hexcl.unique j k b hj hk

theorem Exclusive.handOver {none : β → Bool} (hexcl : Exclusive bits held)
    (hnone : ∀ b, none b = false) :
    Exclusive bits
      (Function.update (Function.update held j none) i (held j)) := by
  have hfrom : ∀ k b,
      Function.update (Function.update held j none) i (held j) k b = true →
      ∃ l, held l b = true ∧ (l = k ∨ k = i ∧ l = j) ∧ (l = j → k = i) := by
    intro k b hk
    by_cases hki : k = i
    · rw [hki, Function.update_self] at hk
      exact ⟨j, hk, Or.inr ⟨hki, rfl⟩, fun _ => hki⟩
    · rw [Function.update_of_ne hki] at hk
      by_cases hkj : k = j
      · rw [hkj, Function.update_self, hnone b] at hk
        cases hk
      · rw [Function.update_of_ne hkj] at hk
        exact ⟨k, hk, Or.inl rfl, fun h => absurd h hkj⟩
  constructor
  · intro k b hk
    rcases hfrom k b hk with ⟨l, hl, -, -⟩
    exact hexcl.set l b hl
  · intro k k' b hk hk'
    rcases hfrom k b hk with ⟨l, hl, hor, himp⟩
    rcases hfrom k' b hk' with ⟨l', hl', hor', himp'⟩
    have heq := hexcl.unique l l' b hl hl'
    subst heq
    rcases hor with hlk | ⟨hki, hlj⟩
    · rcases hor' with hlk' | ⟨hki', hlj'⟩
      · exact hlk.symm.trans hlk'
      · exact (himp hlj').trans hki'.symm
    · exact hki.trans (himp' hlj).symm

/-! ## What a party did so far -/

/-- How often bit `b` was set, when `bits` becomes `bits'`. -/
def countSets (bits bits' : β → Bool) (count : β → ℕ) : β → ℕ :=
  fun b => if bits b = false ∧ bits' b = true then count b + 1 else count b

/-- How often bit `b` was cleared, when `bits` becomes `bits'`. -/
def countClears (bits bits' : β → Bool) (count : β → ℕ) : β → ℕ :=
  fun b => if bits b = true ∧ bits' b = false then count b + 1 else count b

/-- The bits that the party holds are those that it set and did not clear. -/
def Balanced (sets clears : β → ℕ) (h : β → Bool) : Prop :=
  ∀ b, sets b = clears b + (h b).toNat

theorem Balanced.move {sets clears : β → ℕ} (hbal : Balanced sets clears h)
    (hmoves : Moves bits bits' h h') :
    Balanced (countSets bits bits' sets) (countClears bits bits' clears)
      h' := by
  intro b
  have hb := hbal b
  unfold countSets countClears
  by_cases heq : h b = h' b
  · rw [hmoves.of_eq heq, ← heq]
    cases bits b <;> simpa using hb
  · rcases hmoves.of_ne heq with ⟨hbits, hbits'⟩
    rw [hbits, hbits']
    cases hh : h b with
    | false =>
        cases hh' : h' b with
        | false => exact absurd (hh.trans hh'.symm) heq
        | true =>
            rw [hh] at hb
            simpa using hb
    | true =>
        cases hh' : h' b with
        | false =>
            rw [hh] at hb
            simpa using hb
        | true => exact absurd (hh.trans hh'.symm) heq

end BitOwnership
