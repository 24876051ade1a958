import Mathlib.Algebra.BigOperators.Group.Finset.Basic
import Mathlib.Algebra.BigOperators.Group.Finset.Piecewise
import Mathlib.Algebra.Order.BigOperators.Group.Finset
import Mathlib.Data.Fintype.Basic
import Mathlib.Logic.Function.Basic

/-!
# Reservations by moving a bound

Parties reserve space by moving a common bound up by the size they need, and
give it back by moving the bound down again, which only works while nothing
was reserved above.  The held ranges stay disjoint and below the bound
whatever the order, and the space between the floor and the bound is what is
held and what could not be given back.
-/

namespace BumpReservation

structure Reservations (ι : Type*) where
  top : ℕ
  start : ι → Option ℕ

namespace Reservations

variable {ι : Type*} {size : ι → ℕ} {floor align : ℕ} {r : Reservations ι}

structure Sound (floor align : ℕ) (size : ι → ℕ) (r : Reservations ι) :
    Prop where
  floor_le : floor ≤ r.top
  top_dvd : align ∣ r.top
  pos : ∀ i s, r.start i = some s → 0 < size i
  start_dvd : ∀ i s, r.start i = some s → align ∣ s
  floor_le_start : ∀ i s, r.start i = some s → floor ≤ s
  end_le : ∀ i s, r.start i = some s → s + size i ≤ r.top
  disjoint : ∀ i j s t, i ≠ j → r.start i = some s → r.start j = some t →
    s + size i ≤ t ∨ t + size j ≤ s

theorem Sound.initial (halign : align ∣ floor) :
    Sound floor align size ⟨floor, fun _ => none⟩ := by
  constructor
  · exact le_rfl
  · exact halign
  all_goals simp

variable [DecidableEq ι]

/-- Party `i` moves the bound up. -/
def reserve (r : Reservations ι) (size : ι → ℕ) (i : ι) : Reservations ι :=
  ⟨r.top + size i, Function.update r.start i (some r.top)⟩

/-- Party `i`, whose range starts at `s`, gives it up: the bound moves down if
nobody has moved it since. -/
def giveBack (r : Reservations ι) (size : ι → ℕ) (i : ι) (s : ℕ) :
    Reservations ι :=
  ⟨if r.top = s + size i then s else r.top, Function.update r.start i none⟩

theorem reserve_start (r : Reservations ι) (size : ι → ℕ) (i : ι) :
    (r.reserve size i).start = Function.update r.start i (some r.top) := rfl

theorem giveBack_start (r : Reservations ι) (size : ι → ℕ) (i : ι) (s : ℕ) :
    (r.giveBack size i s).start = Function.update r.start i none := rfl

theorem update_start_eq {start : ι → Option ℕ} {value : Option ℕ}
    {i j : ι} {s : ℕ} (h : Function.update start i value j = some s) :
    j = i ∧ value = some s ∨ j ≠ i ∧ start j = some s := by
  by_cases heq : j = i
  · subst heq
    rw [Function.update_self] at h
    exact Or.inl ⟨rfl, h⟩
  · rw [Function.update_of_ne heq] at h
    exact Or.inr ⟨heq, h⟩

theorem Sound.reserve (hsound : Sound floor align size r) {i : ι}
    (hpos : 0 < size i) (hdvd : align ∣ size i) :
    Sound floor align size (r.reserve size i) := by
  have hfloor := hsound.floor_le
  constructor
  · exact hfloor.trans (Nat.le_add_right _ _)
  · exact (Nat.dvd_add_iff_right hsound.top_dvd).mp hdvd
  · intro j s hj
    rcases update_start_eq hj with ⟨rfl, -⟩ | ⟨-, hj⟩
    · exact hpos
    · exact hsound.pos j s hj
  · intro j s hj
    rcases update_start_eq hj with ⟨rfl, hs⟩ | ⟨-, hj⟩
    · cases hs
      exact hsound.top_dvd
    · exact hsound.start_dvd j s hj
  · intro j s hj
    rcases update_start_eq hj with ⟨rfl, hs⟩ | ⟨-, hj⟩
    · cases hs
      exact hfloor
    · exact hsound.floor_le_start j s hj
  · intro j s hj
    show s + size j ≤ r.top + size i
    rcases update_start_eq hj with ⟨rfl, hs⟩ | ⟨-, hj⟩
    · cases hs
      exact le_rfl
    · exact (hsound.end_le j s hj).trans (Nat.le_add_right _ _)
  · intro j k s t hne hj hk
    rcases update_start_eq hj with ⟨rfl, hs⟩ | ⟨-, hjold⟩ <;>
      rcases update_start_eq hk with ⟨rfl, ht⟩ | ⟨-, hkold⟩
    · exact absurd rfl hne
    · cases hs
      exact Or.inr (hsound.end_le k t hkold)
    · cases ht
      exact Or.inl (hsound.end_le j s hjold)
    · exact hsound.disjoint j k s t hne hjold hkold

theorem Sound.giveBack (hsound : Sound floor align size r) {i : ι} {s : ℕ}
    (hheld : r.start i = some s) :
    Sound floor align size (r.giveBack size i s) := by
  have hkeep : ∀ {j t}, Function.update r.start i none j = some t →
      j ≠ i ∧ r.start j = some t := by
    intro j t hj
    rcases update_start_eq hj with ⟨-, hnone⟩ | hother
    · cases hnone
    · exact hother
  constructor
  · show floor ≤ if _ then _ else _
    split
    · exact hsound.floor_le_start i s hheld
    · exact hsound.floor_le
  · show align ∣ if _ then _ else _
    split
    · exact hsound.start_dvd i s hheld
    · exact hsound.top_dvd
  · intro j t hj
    exact hsound.pos j t (hkeep hj).2
  · intro j t hj
    exact hsound.start_dvd j t (hkeep hj).2
  · intro j t hj
    exact hsound.floor_le_start j t (hkeep hj).2
  · intro j t hj
    rcases hkeep hj with ⟨hne, hj⟩
    have hend := hsound.end_le j t hj
    have hposj := hsound.pos j t hj
    show t + size j ≤ if _ then _ else _
    split
    · -- the range at the bound is the one given back
      rcases hsound.disjoint j i t s hne hj hheld with hbefore | hafter
      · exact hbefore
      · omega
    · exact hend
  · intro j k t u hne hj hk
    exact hsound.disjoint j k t u hne (hkeep hj).2 (hkeep hk).2

/-! ## Accounting -/

variable [Fintype ι]

def heldSize (size : ι → ℕ) (r : Reservations ι) : ℕ :=
  ∑ i, if (r.start i).isSome then size i else 0

theorem sum_update (size : ι → ℕ) (start : ι → Option ℕ) (value : Option ℕ)
    (i : ι) :
    (∑ j, if (Function.update start i value j).isSome then size j else 0) +
        (if (start i).isSome then size i else 0) =
      (∑ j, if (start j).isSome then size j else 0) +
        (if value.isSome then size i else 0) := by
  have hsplit : ∀ f : ι → ℕ, ∑ j, f j = f i + ∑ j ∈ Finset.univ.erase i, f j :=
    fun f => (Finset.add_sum_erase _ f (Finset.mem_univ i)).symm
  rw [hsplit fun j =>
      if (Function.update start i value j).isSome then size j else 0,
    hsplit fun j => if (start j).isSome then size j else 0]
  have hrest : (∑ j ∈ Finset.univ.erase i,
      if (Function.update start i value j).isSome then size j else 0) =
      ∑ j ∈ Finset.univ.erase i,
        if (start j).isSome then size j else 0 := by
    apply Finset.sum_congr rfl
    intro j hj
    rw [Function.update_of_ne (Finset.ne_of_mem_erase hj)]
  rw [hrest, Function.update_self]
  omega

theorem heldSize_reserve (size : ι → ℕ) {i : ι}
    (hfree : r.start i = none) :
    (r.reserve size i).heldSize size = r.heldSize size + size i := by
  have hsum := sum_update size r.start (some r.top) i
  rw [hfree] at hsum
  exact hsum

theorem heldSize_giveBack (size : ι → ℕ) {i : ι} {s : ℕ}
    (hheld : r.start i = some s) :
    (r.giveBack size i s).heldSize size + size i = r.heldSize size := by
  have hsum := sum_update size r.start none i
  rw [hheld] at hsum
  exact hsum

end Reservations

end BumpReservation
