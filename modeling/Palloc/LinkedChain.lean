import Mathlib.Data.List.Perm.Basic
import Mathlib.Data.List.Nodup
import Mathlib.Logic.Function.Basic

/-!
# Null-terminated chains of links

A singly linked list in memory is a link function `next` together with a
head.  `IsChain next head l` says that following the links from `head`
visits exactly the nodes of `l` and then stops.  A chain is determined by its
head and never repeats a node, and it only depends on the links of its own
nodes; these three facts carry every argument about the operations that push,
take over or splice chains.
-/

namespace LinkedChain

variable {α : Type*}

/-- Following `next` from `head` visits the nodes of `l` and then stops. -/
def IsChain (next : α → Option α) : Option α → List α → Prop
  | head, [] => head = none
  | head, node :: rest => head = some node ∧ IsChain next (next node) rest

@[simp] theorem isChain_nil (next : α → Option α) (head : Option α) :
    IsChain next head [] ↔ head = none := Iff.rfl

@[simp] theorem isChain_cons (next : α → Option α) (head : Option α)
    (node : α) (rest : List α) :
    IsChain next head (node :: rest) ↔
      head = some node ∧ IsChain next (next node) rest := Iff.rfl

theorem IsChain.head_eq {next : α → Option α} {head : Option α}
    {l : List α} (h : IsChain next head l) : head = l.head? := by
  cases l with
  | nil => simpa using h
  | cons node rest => exact h.1

theorem IsChain.eq_nil {next : α → Option α} {l : List α}
    (h : IsChain next none l) : l = [] := by
  cases l with
  | nil => rfl
  | cons node rest => exact absurd h.1 (by simp)

theorem IsChain.exists_rest {next : α → Option α} {node : α} {l : List α}
    (h : IsChain next (some node) l) :
    ∃ rest, l = node :: rest ∧ IsChain next (next node) rest := by
  cases l with
  | nil => simp at h
  | cons first rest =>
      obtain ⟨hfirst, hrest⟩ := h
      cases hfirst
      exact ⟨rest, rfl, hrest⟩

theorem IsChain.unique {next : α → Option α} {head : Option α}
    {l l' : List α} (h : IsChain next head l) (h' : IsChain next head l') :
    l = l' := by
  induction l generalizing head l' with
  | nil =>
      have hhead : head = none := h
      subst hhead
      exact h'.eq_nil.symm
  | cons node rest ih =>
      obtain ⟨hhead, hrest⟩ := h
      subst hhead
      obtain ⟨rest', rfl, hrest'⟩ := h'.exists_rest
      rw [ih hrest hrest']

theorem IsChain.congr {next next' : α → Option α} {head : Option α}
    {l : List α} (h : IsChain next head l)
    (heq : ∀ node ∈ l, next' node = next node) :
    IsChain next' head l := by
  induction l generalizing head with
  | nil => exact h
  | cons node rest ih =>
      refine ⟨h.1, ?_⟩
      rw [heq node (by simp)]
      exact ih h.2 fun other hother => heq other (by simp [hother])

theorem IsChain.suffix {next : α → Option α} {head : Option α}
    {before : List α} {node : α} {after : List α}
    (h : IsChain next head (before ++ node :: after)) :
    IsChain next (some node) (node :: after) := by
  induction before generalizing head with
  | nil => exact ⟨rfl, h.2⟩
  | cons first rest ih => exact ih h.2

theorem IsChain.nodup {next : α → Option α} {head : Option α}
    {l : List α} (h : IsChain next head l) : l.Nodup := by
  induction l generalizing head with
  | nil => simp
  | cons node rest ih =>
      refine List.nodup_cons.mpr ⟨?_, ih h.2⟩
      intro hmem
      obtain ⟨before, after, hsplit⟩ := List.append_of_mem hmem
      have hsuffix : IsChain next (some node) (node :: after) := by
        have hrest := h.2
        rw [hsplit] at hrest
        exact hrest.suffix
      have hsame : node :: rest = node :: after :=
        IsChain.unique ⟨rfl, h.2⟩ hsuffix
      have hlength := congrArg List.length hsame
      rw [hsplit] at hlength
      simp at hlength
      omega

/-- Following `next` from `head` visits the nodes of `l` and then reaches
`stop`. -/
def ChainTo (next : α → Option α) (stop : Option α) :
    Option α → List α → Prop
  | head, [] => head = stop
  | head, node :: rest =>
      head = some node ∧ ChainTo next stop (next node) rest

theorem ChainTo.append {next : α → Option α} {stop head : Option α}
    {l l' : List α} (h : ChainTo next stop head l)
    (h' : IsChain next stop l') : IsChain next head (l ++ l') := by
  induction l generalizing head with
  | nil =>
      have hhead : head = stop := h
      rw [hhead]
      exact h'
  | cons node rest ih => exact ⟨h.1, ih h.2⟩

section Update

variable [DecidableEq α]

theorem IsChain.update_of_notMem {next : α → Option α} {head : Option α}
    {l : List α} (h : IsChain next head l) {node : α} (hnode : node ∉ l)
    (target : Option α) :
    IsChain (Function.update next node target) head l := by
  apply h.congr
  intro other hother
  have hne : other ≠ node := by
    rintro rfl
    exact hnode hother
  simp [Function.update, hne]

theorem IsChain.push {next : α → Option α} {head : Option α}
    {l : List α} (h : IsChain next head l) {node : α} (hnode : node ∉ l) :
    IsChain (Function.update next node head) (some node) (node :: l) := by
  refine ⟨rfl, ?_⟩
  rw [Function.update_self]
  exact h.update_of_notMem hnode head

theorem IsChain.redirect {next : α → Option α} {head : Option α}
    {before : List α} {last : α} (h : IsChain next head (before ++ [last]))
    (target : Option α) :
    ChainTo (Function.update next last target) target head
      (before ++ [last]) := by
  have hnodup := h.nodup
  induction before generalizing head with
  | nil =>
      refine ⟨h.1, ?_⟩
      rw [Function.update_self]
      rfl
  | cons first rest ih =>
      have hne : first ≠ last := by
        rintro rfl
        simp at hnodup
      refine ⟨h.1, ?_⟩
      rw [Function.update_of_ne hne]
      exact ih h.2 (List.nodup_cons.mp hnodup).2

/-- Redirecting the last link of one chain to the head of another. -/
theorem IsChain.splice {next : α → Option α} {head head' : Option α}
    {before : List α} {last : α} {l' : List α}
    (h : IsChain next head (before ++ [last])) (h' : IsChain next head' l')
    (hlast : last ∉ l') :
    IsChain (Function.update next last head') head
      (before ++ last :: l') := by
  have hjoined := (h.redirect head').append
    (h'.update_of_notMem hlast head')
  rw [List.append_assoc] at hjoined
  exact hjoined

end Update

/-- Walk to the last node of the chain that starts at `node`; `none` when
the fuel runs out before the end of the chain. -/
def lastNode (next : α → Option α) : ℕ → α → Option α
  | 0, _ => none
  | fuel + 1, node =>
      match next node with
      | none => some node
      | some following => lastNode next fuel following

theorem IsChain.lastNode_eq {next : α → Option α} {node : α} {l : List α}
    (h : IsChain next (some node) l) {fuel : ℕ} (hfuel : l.length ≤ fuel) :
    lastNode next fuel node = l.getLast? := by
  induction fuel generalizing node l with
  | zero =>
      have hnil : l = [] := by simpa using hfuel
      subst hnil
      simp at h
  | succ fuel ih =>
      obtain ⟨rest, rfl, hrest⟩ := h.exists_rest
      cases hnext : next node with
      | none =>
          rw [hnext] at hrest
          rw [hrest.eq_nil]
          simp [lastNode, hnext]
      | some following =>
          rw [hnext] at hrest
          obtain ⟨rest', rfl, _⟩ := hrest.exists_rest
          have hlen : (following :: rest').length ≤ fuel := by
            simpa using hfuel
          simp only [lastNode, hnext]
          rw [ih hrest hlen]
          simp

end LinkedChain
