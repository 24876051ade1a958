import Palloc.LinkedChain

/-!
# Stacks that share one link field

Many linked stacks use the same link field of their nodes.  `loc` tells for
each node in which stack it is, if any; being a function, it puts no node in
two stacks.  A node in no stack is private: writing its link disturbs no
stack.  Pushing a private node, taking over a whole stack, popping, and
appending one stack to another move nodes from one place to another, and each
is one lemma.
-/

namespace SharedStacks

open LinkedChain

variable {α π : Type*}

/-- From the head of each place, the links visit the nodes of that place. -/
def Stacks (next : α → Option α) (head : π → Option α)
    (loc : α → Option π) : Prop :=
  ∀ p, ∃ l, IsChain next (head p) l ∧ ∀ node, node ∈ l ↔ loc node = some p

variable {next : α → Option α} {head head' : π → Option α}
  {loc loc' : α → Option π} {node : α} {p q : π}

theorem Stacks.head_loc (h : Stacks next head loc) (hhead : head p = some node) :
    loc node = some p := by
  obtain ⟨l, hchain, hmem⟩ := h p
  rw [hhead] at hchain
  obtain ⟨rest, rfl, -⟩ := hchain.exists_rest
  exact (hmem node).mp (by simp)

theorem Stacks.loc_ne (h : Stacks next head loc) (hhead : head p = none)
    (node : α) : loc node ≠ some p := by
  obtain ⟨l, hchain, hmem⟩ := h p
  rw [hhead] at hchain
  intro hloc
  have hnode := (hmem node).mpr hloc
  rw [hchain.eq_nil] at hnode
  simp at hnode

theorem Stacks.loc_iff (h : Stacks next head loc) :
    loc node = some p ↔ ∃ l, IsChain next (head p) l ∧ node ∈ l := by
  obtain ⟨l, hchain, hmem⟩ := h p
  constructor
  · intro hloc
    exact ⟨l, hchain, (hmem node).mpr hloc⟩
  · rintro ⟨l', hchain', hnode⟩
    rw [hchain'.unique hchain] at hnode
    exact (hmem node).mp hnode

section Operations

theorem Stacks.write [DecidableEq α] (h : Stacks next head loc) (hprivate : loc node = none)
    (target : Option α) :
    Stacks (Function.update next node target) head loc := by
  intro p
  obtain ⟨l, hchain, hmem⟩ := h p
  refine ⟨l, hchain.update_of_notMem ?_ target, hmem⟩
  intro hnode
  have hloc := (hmem node).mp hnode
  rw [hprivate] at hloc
  cases hloc

/-- Pushing a private node whose link is the head. -/
theorem Stacks.push [DecidableEq α] [DecidableEq π] (h : Stacks next head loc) (hprivate : loc node = none)
    (hlink : next node = head p)
    (hhead : ∀ r, head' r = if r = p then some node else head r)
    (hloc : ∀ other, loc' other =
      if other = node then some p else loc other) :
    Stacks next head' loc' := by
  intro r
  obtain ⟨l, hchain, hmem⟩ := h r
  rw [hhead]
  by_cases hr : r = p
  · subst hr
    rw [if_pos rfl]
    refine ⟨node :: l, ⟨rfl, by rw [hlink]; exact hchain⟩, ?_⟩
    intro other
    rw [hloc, List.mem_cons]
    by_cases hother : other = node
    · simp [hother]
    · simp [hother, hmem]
  · rw [if_neg hr]
    refine ⟨l, hchain, ?_⟩
    intro other
    rw [hloc, hmem]
    by_cases hother : other = node
    · subst hother
      simp [hprivate, Ne.symm hr]
    · simp [hother]

theorem Stacks.pop [DecidableEq α] [DecidableEq π] (h : Stacks next head loc) (hnode : head p = some node)
    (hhead : ∀ r, head' r = if r = p then next node else head r)
    (hloc : ∀ other, loc' other = if other = node then none else loc other) :
    Stacks next head' loc' := by
  have hat := h.head_loc hnode
  intro r
  obtain ⟨l, hchain, hmem⟩ := h r
  rw [hhead]
  by_cases hr : r = p
  · subst hr
    rw [if_pos rfl]
    rw [hnode] at hchain
    have hnodup := hchain.nodup
    obtain ⟨rest, rfl, hrest⟩ := hchain.exists_rest
    refine ⟨rest, hrest, ?_⟩
    intro other
    rw [hloc]
    by_cases hother : other = node
    · subst hother
      simpa using hnodup.notMem
    · rw [if_neg hother, ← hmem]
      simp [hother]
  · rw [if_neg hr]
    refine ⟨l, hchain, ?_⟩
    intro other
    rw [hloc, hmem]
    by_cases hother : other = node
    · subst hother
      rw [hat]
      simp [Ne.symm hr]
    · simp [hother]

/-- Taking over a whole stack into an empty place. -/
theorem Stacks.take [DecidableEq π] (h : Stacks next head loc) (hempty : head q = none)
    (hne : p ≠ q)
    (hhead : ∀ r, head' r =
      if r = q then head p else if r = p then none else head r)
    (hloc : ∀ other, loc' other =
      if loc other = some p then some q else loc other) :
    Stacks next head' loc' := by
  intro r
  rw [hhead]
  by_cases hrq : r = q
  · subst hrq
    rw [if_pos rfl]
    obtain ⟨l, hchain, hmem⟩ := h p
    refine ⟨l, hchain, ?_⟩
    intro other
    rw [hloc, hmem]
    have hnot := h.loc_ne hempty other
    split
    · simp_all
    · simp_all
  · rw [if_neg hrq]
    by_cases hrp : r = p
    · subst hrp
      rw [if_pos rfl]
      refine ⟨[], rfl, ?_⟩
      intro other
      rw [hloc]
      split
      · simp [Ne.symm hrq]
      · simp_all
    · rw [if_neg hrp]
      obtain ⟨l, hchain, hmem⟩ := h r
      refine ⟨l, hchain, ?_⟩
      intro other
      rw [hloc, hmem]
      split
      · next hat =>
          rw [hat]
          simp [Ne.symm hrp, Ne.symm hrq]
      · rfl

/-- Putting a whole stack in front of another one. -/
theorem Stacks.splice [DecidableEq α] [DecidableEq π] (h : Stacks next head loc) (hne : p ≠ q)
    {before : List α} {last : α}
    (hchain : IsChain next (head p) (before ++ [last]))
    (hhead : ∀ r, head' r =
      if r = q then head p else if r = p then none else head r)
    (hloc : ∀ other, loc' other =
      if loc other = some p then some q else loc other) :
    Stacks (Function.update next last (head q)) head' loc' := by
  have hlast : loc last = some p := h.loc_iff.mpr ⟨_, hchain, by simp⟩
  intro r
  rw [hhead]
  by_cases hrq : r = q
  · subst hrq
    rw [if_pos rfl]
    obtain ⟨l, hl, hmem⟩ := h r
    have hnot : last ∉ l := by
      intro hin
      have hat := (hmem last).mp hin
      rw [hlast, Option.some.injEq] at hat
      exact hne hat
    refine ⟨before ++ last :: l, hchain.splice hl hnot, ?_⟩
    intro other
    have hp : other ∈ before ++ [last] ↔ loc other = some p := by
      obtain ⟨l', hl', hmem'⟩ := h p
      rw [hchain.unique hl']
      exact hmem' other
    rw [hloc, ← List.singleton_append, ← List.append_assoc, List.mem_append,
      hp, hmem]
    split
    · simp_all
    · simp_all
  · rw [if_neg hrq]
    by_cases hrp : r = p
    · subst hrp
      rw [if_pos rfl]
      refine ⟨[], rfl, ?_⟩
      intro other
      rw [hloc]
      split
      · simp [Ne.symm hrq]
      · simp_all
    · rw [if_neg hrp]
      obtain ⟨l, hl, hmem⟩ := h r
      have hnot : last ∉ l := by
        intro hin
        have hat := (hmem last).mp hin
        rw [hlast, Option.some.injEq] at hat
        exact hrp hat.symm
      refine ⟨l, hl.update_of_notMem hnot _, ?_⟩
      intro other
      rw [hloc, hmem]
      split
      · next hat =>
          rw [hat]
          simp [Ne.symm hrp, Ne.symm hrq]
      · rfl

end Operations

end SharedStacks
