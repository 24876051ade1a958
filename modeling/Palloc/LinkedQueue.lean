import Mathlib.Data.List.Basic
import Mathlib.Data.List.Nodup
import Mathlib.Data.List.Infix
import Mathlib.Logic.Function.Basic

/-!
# Doubly linked queues over shared nodes

The nodes carry `next` and `prev` fields; a queue is a pair of end pointers.
Several queues may use the same nodes, as long as no node is in two of them.
`IsQueue` says that a queue holds exactly the nodes of a list in this order,
`IsFamily` that a whole family of queues does so and that their nodes are
distinct.  Pushing a node that is in no queue and deleting a node from its
queue keep a family, and touch no other list of it.
-/

namespace LinkedQueue

variable {α : Type*}

@[ext] structure Links (α : Type*) where
  next : α → Option α
  prev : α → Option α

@[ext] structure Ends (α : Type*) where
  first : Option α
  last : Option α
  deriving DecidableEq, Repr

def Ends.empty : Ends α := ⟨none, none⟩

/-- The nodes of `l` are linked in both directions; `before` precedes the
first node and `after` follows the last one. -/
def Linked (links : Links α) :
    Option α → List α → Option α → Prop
  | _, [], _ => True
  | before, node :: rest, after =>
      links.prev node = before ∧
        links.next node = rest.head?.or after ∧
          Linked links (some node) rest after

@[simp] theorem linked_nil (links : Links α) (before after : Option α) :
    Linked links before [] after ↔ True := Iff.rfl

@[simp] theorem linked_cons (links : Links α) (before after : Option α)
    (node : α) (rest : List α) :
    Linked links before (node :: rest) after ↔
      links.prev node = before ∧
        links.next node = rest.head?.or after ∧
          Linked links (some node) rest after := Iff.rfl

theorem linked_append (links : Links α) (before after : Option α)
    (l l' : List α) :
    Linked links before (l ++ l') after ↔
      Linked links before l (l'.head?.or after) ∧
        Linked links (l.getLast?.or before) l' after := by
  induction l generalizing before with
  | nil => simp
  | cons node rest ih =>
      have hhead : (rest ++ l').head?.or after =
          rest.head?.or (l'.head?.or after) := by
        cases rest <;> simp
      have hlast : (node :: rest).getLast?.or before =
          rest.getLast?.or (some node) := by
        rw [List.getLast?_cons]
        cases rest.getLast? <;> rfl
      simp only [List.cons_append, linked_cons, hhead, hlast, ih]
      tauto

theorem Linked.congr {links links' : Links α} {before after : Option α}
    {l : List α} (h : Linked links before l after)
    (hnext : ∀ node ∈ l, links'.next node = links.next node)
    (hprev : ∀ node ∈ l, links'.prev node = links.prev node) :
    Linked links' before l after := by
  induction l generalizing before with
  | nil => trivial
  | cons node rest ih =>
      refine ⟨?_, ?_, ?_⟩
      · rw [hprev node (by simp)]
        exact h.1
      · rw [hnext node (by simp)]
        exact h.2.1
      · exact ih h.2.2
          (fun other hother => hnext other (by simp [hother]))
          (fun other hother => hprev other (by simp [hother]))

structure IsQueue (links : Links α) (ends : Ends α) (l : List α) : Prop where
  nodup : l.Nodup
  linked : Linked links none l none
  first : ends.first = l.head?
  last : ends.last = l.getLast?

theorem IsQueue.nil (links : Links α) : IsQueue links Ends.empty [] :=
  ⟨by simp, trivial, rfl, rfl⟩

theorem IsQueue.unique {links : Links α} {ends : Ends α} {l l' : List α}
    (h : IsQueue links ends l) (h' : IsQueue links ends l') : l = l' := by
  have hwalk : ∀ {before before' : Option α} {l l' : List α},
      Linked links before l none → Linked links before' l' none →
        l.head? = l'.head? → l = l' := by
    intro before before' l
    induction l generalizing before before' with
    | nil =>
        intro l' _ _ hhead
        cases l' with
        | nil => rfl
        | cons node rest => simp at hhead
    | cons node rest ih =>
        intro l' hl hl' hhead
        cases l' with
        | nil => simp at hhead
        | cons node' rest' =>
            have hnode : node = node' := by simpa using hhead
            subst hnode
            have hrest : rest.head? = rest'.head? := by
              have h1 := hl.2.1
              have h2 := hl'.2.1
              rw [h1] at h2
              simpa using h2
            rw [ih hl.2.2 hl'.2.2 hrest]
  exact hwalk h.linked h'.linked (h.first.symm.trans h'.first)

theorem IsQueue.congr {links links' : Links α} {ends : Ends α}
    {l : List α} (h : IsQueue links ends l)
    (hnext : ∀ node ∈ l, links'.next node = links.next node)
    (hprev : ∀ node ∈ l, links'.prev node = links.prev node) :
    IsQueue links' ends l :=
  ⟨h.nodup, h.linked.congr hnext hprev, h.first, h.last⟩

theorem IsQueue.prev_eq {links : Links α} {ends : Ends α}
    {before after : List α} {node : α}
    (h : IsQueue links ends (before ++ node :: after)) :
    links.prev node = before.getLast? := by
  have hlinked := (linked_append links none none before (node :: after)).mp
    h.linked
  simpa using hlinked.2.1

theorem IsQueue.next_eq {links : Links α} {ends : Ends α}
    {before after : List α} {node : α}
    (h : IsQueue links ends (before ++ node :: after)) :
    links.next node = after.head? := by
  have hlinked := (linked_append links none none before (node :: after)).mp
    h.linked
  simpa using hlinked.2.2.1

theorem IsQueue.neighbours {links : Links α} {ends : Ends α} {l : List α}
    {node : α} (h : IsQueue links ends l) (hnode : node ∈ l) :
    (∀ other, links.next node = some other → other ∈ l) ∧
      ∀ other, links.prev node = some other → other ∈ l := by
  obtain ⟨before, after, rfl⟩ := List.append_of_mem hnode
  rw [h.next_eq, h.prev_eq]
  constructor
  · intro other heq
    exact List.mem_append_right _
      (List.mem_cons_of_mem _ (List.mem_of_head? heq))
  · intro other heq
    exact List.mem_append_left _ (List.mem_of_getLast? heq)

variable {ι : Type*}

structure IsFamily (links : Links α) (ends : ι → Ends α)
    (lists : ι → List α) : Prop where
  queue : ∀ i, IsQueue links (ends i) (lists i)
  disjoint : ∀ i j node, node ∈ lists i → node ∈ lists j → i = j

theorem IsFamily.congr {links links' : Links α} {ends : ι → Ends α}
    {lists : ι → List α} (h : IsFamily links ends lists)
    (hlinks : ∀ i, ∀ node ∈ lists i,
      links'.next node = links.next node ∧
        links'.prev node = links.prev node) :
    IsFamily links' ends lists where
  queue i := (h.queue i).congr
    (fun node hnode => (hlinks i node hnode).1)
    (fun node hnode => (hlinks i node hnode).2)
  disjoint := h.disjoint

/-! ## Pushing and deleting -/

section Operations

variable [DecidableEq α]

/-- Change the `next` field of a node, if there is one. -/
def Links.setNext (links : Links α) (node : Option α) (target : Option α) :
    Links α :=
  match node with
  | none => links
  | some node => { links with next := Function.update links.next node target }

/-- Change the `prev` field of a node, if there is one. -/
def Links.setPrev (links : Links α) (node : Option α) (target : Option α) :
    Links α :=
  match node with
  | none => links
  | some node => { links with prev := Function.update links.prev node target }

@[simp] theorem Links.setNext_none (links : Links α) (target : Option α) :
    links.setNext none target = links := rfl

@[simp] theorem Links.setPrev_none (links : Links α) (target : Option α) :
    links.setPrev none target = links := rfl

@[simp] theorem Links.next_setPrev (links : Links α)
    (node target : Option α) :
    (links.setPrev node target).next = links.next := by
  cases node <;> rfl

@[simp] theorem Links.prev_setNext (links : Links α)
    (node target : Option α) :
    (links.setNext node target).prev = links.prev := by
  cases node <;> rfl

theorem Links.next_setNext (links : Links α) (node target : Option α)
    (other : α) :
    (links.setNext node target).next other =
      if node = some other then target else links.next other := by
  cases node with
  | none => simp
  | some node =>
      by_cases h : node = other
      · subst h
        simp [Links.setNext]
      · have h' : other ≠ node := fun heq => h heq.symm
        simp [Links.setNext, Function.update, h, h']

theorem Links.prev_setPrev (links : Links α) (node target : Option α)
    (other : α) :
    (links.setPrev node target).prev other =
      if node = some other then target else links.prev other := by
  cases node with
  | none => simp
  | some node =>
      by_cases h : node = other
      · subst h
        simp [Links.setPrev]
      · have h' : other ≠ node := fun heq => h heq.symm
        simp [Links.setPrev, Function.update, h, h']

def pushLinks (links : Links α) (ends : Ends α) (node : α) : Links α :=
  ((links.setPrev (some node) none).setNext (some node) ends.first).setPrev
    ends.first (some node)

def pushEnds (ends : Ends α) (node : α) : Ends α where
  first := some node
  last := if ends.first.isSome then ends.last else some node

/-- The link writes of a deletion: bypass the node in both directions, then
clear its own fields. -/
def deleteLinks (links : Links α) (node : α) : Links α :=
  ((((links.setNext (links.prev node) (links.next node)).setPrev
    (links.next node) (links.prev node)).setPrev (some node) none).setNext
      (some node) none)

def deleteEnds (links : Links α) (ends : Ends α) (node : α) : Ends α where
  first := if ends.first = some node then links.next node else ends.first
  last := if ends.last = some node then links.prev node else ends.last

theorem pushLinks_next (links : Links α) (ends : Ends α) (node other : α) :
    (pushLinks links ends node).next other =
      if node = other then ends.first else links.next other := by
  simp [pushLinks, Links.next_setNext]

theorem pushLinks_prev (links : Links α) (ends : Ends α) (node other : α) :
    (pushLinks links ends node).prev other =
      if ends.first = some other then some node
      else if node = other then none else links.prev other := by
  simp [pushLinks, Links.prev_setPrev]

theorem deleteLinks_next (links : Links α) (node other : α) :
    (deleteLinks links node).next other =
      if node = other then none
      else if links.prev node = some other then links.next node
      else links.next other := by
  simp [deleteLinks, Links.next_setNext]

theorem deleteLinks_prev (links : Links α) (node other : α) :
    (deleteLinks links node).prev other =
      if node = other then none
      else if links.next node = some other then links.prev node
      else links.prev other := by
  simp [deleteLinks, Links.prev_setPrev]

theorem IsQueue.push {links : Links α} {ends : Ends α} {l : List α}
    (h : IsQueue links ends l) {node : α} (hnode : node ∉ l) :
    IsQueue (pushLinks links ends node) (pushEnds ends node)
      (node :: l) := by
  have hfirst := h.first
  cases l with
  | nil =>
      have hnone : ends.first = none := by simpa using hfirst
      refine ⟨by simp, ?_, rfl, ?_⟩
      · simp [pushLinks_next, pushLinks_prev, hnone]
      · simp [pushEnds, hnone]
  | cons front rest =>
      have hsome : ends.first = some front := by simpa using hfirst
      have hfront : node ≠ front := by
        rintro rfl
        simp at hnode
      obtain ⟨hprev, hnext, hrest⟩ := h.linked
      have hnotRest : front ∉ rest := (List.nodup_cons.mp h.nodup).1
      refine ⟨List.nodup_cons.mpr ⟨hnode, h.nodup⟩, ?_, rfl, ?_⟩
      · refine ⟨?_, ?_, ?_, ?_, ?_⟩
        · simp [pushLinks_prev, hsome, hfront.symm]
        · simp [pushLinks_next, hsome]
        · simp [pushLinks_prev, hsome]
        · rw [pushLinks_next, if_neg hfront]
          exact hnext
        · apply hrest.congr
          · intro other hother
            have hne : node ≠ other := by
              rintro rfl
              exact hnode (by simp [hother])
            rw [pushLinks_next, if_neg hne]
          · intro other hother
            have hne : node ≠ other := by
              rintro rfl
              exact hnode (by simp [hother])
            have hne' : front ≠ other := by
              rintro rfl
              exact hnotRest hother
            rw [pushLinks_prev, hsome, if_neg (by simpa using hne'),
              if_neg hne]
      · simp only [pushEnds, hsome, Option.isSome_some, if_true]
        rw [h.last, List.getLast?_cons_cons]

/-- Bypassing the next link of the last node of a linked list. -/
private theorem Linked.set_after {links links' : Links α}
    {before after after' : Option α} {l : List α}
    (h : Linked links before l after) (hnodup : l.Nodup)
    (hnext : ∀ other ∈ l, links'.next other =
      if l.getLast? = some other then after' else links.next other)
    (hprev : ∀ other ∈ l, links'.prev other = links.prev other) :
    Linked links' before l after' := by
  induction l generalizing before with
  | nil => trivial
  | cons node rest ih =>
      obtain ⟨hnotMem, hrestNodup⟩ := List.nodup_cons.mp hnodup
      refine ⟨?_, ?_, ?_⟩
      · rw [hprev node (by simp)]
        exact h.1
      · rw [hnext node (by simp)]
        cases rest with
        | nil => simp
        | cons other tail =>
            have hlast : (node :: other :: tail).getLast? ≠ some node := by
              rw [List.getLast?_cons_cons]
              intro heq
              exact hnotMem (List.mem_of_getLast? heq)
            rw [if_neg hlast]
            simpa using h.2.1
      · apply ih h.2.2 hrestNodup
        · intro other hother
          rw [hnext other (by simp [hother])]
          cases rest with
          | nil => simp at hother
          | cons front tail => rw [List.getLast?_cons_cons]
        · intro other hother
          exact hprev other (by simp [hother])

/-- Bypassing the previous link of the first node of a linked list. -/
private theorem Linked.set_before {links links' : Links α}
    {before before' after : Option α} {l : List α}
    (h : Linked links before l after) (hnodup : l.Nodup)
    (hnext : ∀ other ∈ l, links'.next other = links.next other)
    (hprev : ∀ other ∈ l, links'.prev other =
      if l.head? = some other then before' else links.prev other) :
    Linked links' before' l after := by
  cases l with
  | nil => trivial
  | cons node rest =>
      have hnotMem : node ∉ rest := (List.nodup_cons.mp hnodup).1
      refine ⟨?_, ?_, ?_⟩
      · rw [hprev node (by simp)]
        simp
      · rw [hnext node (by simp)]
        exact h.2.1
      · apply h.2.2.congr
        · intro other hother
          exact hnext other (by simp [hother])
        · intro other hother
          have hne : node ≠ other := by
            rintro rfl
            exact hnotMem hother
          rw [hprev other (by simp [hother])]
          simp [hne]

theorem IsQueue.delete {links : Links α} {ends : Ends α}
    {before after : List α} {node : α}
    (h : IsQueue links ends (before ++ node :: after)) :
    IsQueue (deleteLinks links node) (deleteEnds links ends node)
      (before ++ after) := by
  have hprev := h.prev_eq
  have hnext := h.next_eq
  have hlinked := (linked_append links none none before (node :: after)).mp
    h.linked
  have hnodup := h.nodup
  rw [List.nodup_append] at hnodup
  obtain ⟨hbefore, hnodeAfter, hdisjoint⟩ := hnodup
  obtain ⟨hnotAfter, hafter⟩ := List.nodup_cons.mp hnodeAfter
  have hnotBefore : node ∉ before := fun hmem =>
    hdisjoint node hmem node (by simp) rfl
  have hcross : ∀ other ∈ before, other ∉ after := fun other hother hmem =>
    hdisjoint other hother other (by simp [hmem]) rfl
  refine ⟨?_, ?_, ?_, ?_⟩
  · rw [List.nodup_append]
    refine ⟨hbefore, hafter, ?_⟩
    intro a ha b hb heq
    exact hcross a ha (heq ▸ hb)
  · rw [linked_append]
    constructor
    · apply hlinked.1.set_after hbefore
      · intro other hother
        have hne : node ≠ other := by
          rintro rfl
          exact hnotBefore hother
        rw [deleteLinks_next, if_neg hne, hprev, hnext]
        simp
      · intro other hother
        have hne : node ≠ other := by
          rintro rfl
          exact hnotBefore hother
        have hnotHead : after.head? ≠ some other := by
          intro heq
          exact hcross other hother (List.mem_of_head? heq)
        rw [deleteLinks_prev, if_neg hne, hnext, if_neg hnotHead]
    · apply hlinked.2.2.2.set_before hafter
      · intro other hother
        have hne : node ≠ other := by
          rintro rfl
          exact hnotAfter hother
        have hnotLast : before.getLast? ≠ some other := by
          intro heq
          exact hcross other (List.mem_of_getLast? heq) hother
        rw [deleteLinks_next, if_neg hne, hprev, if_neg hnotLast]
      · intro other hother
        have hne : node ≠ other := by
          rintro rfl
          exact hnotAfter hother
        rw [deleteLinks_prev, if_neg hne, hnext, hprev]
        simp
  · have hfirst := h.first
    simp only [deleteEnds, hfirst]
    cases before with
    | nil => simp [hnext]
    | cons front rest =>
        have hne : front ≠ node := by
          rintro rfl
          simp at hnotBefore
        simp [hne]
  · have hlast := h.last
    simp only [deleteEnds, hlast]
    cases after using List.reverseRecOn with
    | nil => simp [hprev]
    | append_singleton rest back _ =>
        have hne : back ≠ node := by
          rintro rfl
          simp at hnotAfter
        have hback : (before ++ node :: (rest ++ [back])).getLast? =
            some back := by
          rw [show before ++ node :: (rest ++ [back]) =
            (before ++ node :: rest) ++ [back] by simp]
          exact List.getLast?_concat
        rw [hback]
        simp [hne, List.getLast?_append]

def pushBackLinks (links : Links α) (ends : Ends α) (node : α) : Links α :=
  ((links.setPrev (some node) ends.last).setNext (some node) none).setNext
    ends.last (some node)

def pushBackEnds (ends : Ends α) (node : α) : Ends α where
  first := if ends.last.isSome then ends.first else some node
  last := some node

/-- The link writes of an insertion behind `front`. -/
def insertSecondLinks (links : Links α) (front node : α) : Links α :=
  (((links.setPrev (some node) (some front)).setNext (some node)
    (links.next front)).setNext (some front) (some node)).setPrev
      (links.next front) (some node)

/-- The end pointers after an insertion behind `front`. -/
def insertSecondEnds (links : Links α) (ends : Ends α) (front node : α) :
    Ends α where
  first := ends.first
  last := if (links.next front).isSome then ends.last else some node

/-- Bypass a node in both directions and leave its own fields. -/
def bypassLinks (links : Links α) (node : α) : Links α :=
  (links.setNext (links.prev node) (links.next node)).setPrev
    (links.next node) (links.prev node)

/-- The link writes that put one nonempty queue behind another. -/
def appendLinks (links : Links α) (ends ends' : Ends α) : Links α :=
  (links.setNext ends.last ends'.first).setPrev ends'.first ends.last

theorem pushBackLinks_next (links : Links α) (ends : Ends α)
    (node other : α) :
    (pushBackLinks links ends node).next other =
      if ends.last = some other then some node
      else if node = other then none else links.next other := by
  simp [pushBackLinks, Links.next_setNext]

theorem pushBackLinks_prev (links : Links α) (ends : Ends α)
    (node other : α) :
    (pushBackLinks links ends node).prev other =
      if node = other then ends.last else links.prev other := by
  simp [pushBackLinks, Links.prev_setPrev]

theorem insertSecondLinks_next (links : Links α) (front node other : α) :
    (insertSecondLinks links front node).next other =
      if front = other then some node
      else if node = other then links.next front else links.next other := by
  simp [insertSecondLinks, Links.next_setNext]

theorem insertSecondLinks_prev (links : Links α) (front node other : α) :
    (insertSecondLinks links front node).prev other =
      if links.next front = some other then some node
      else if node = other then some front else links.prev other := by
  simp [insertSecondLinks, Links.prev_setPrev]

theorem appendLinks_next (links : Links α) (ends ends' : Ends α)
    (other : α) :
    (appendLinks links ends ends').next other =
      if ends.last = some other then ends'.first else links.next other := by
  simp [appendLinks, Links.next_setNext]

theorem appendLinks_prev (links : Links α) (ends ends' : Ends α)
    (other : α) :
    (appendLinks links ends ends').prev other =
      if ends'.first = some other then ends.last else links.prev other := by
  simp [appendLinks, Links.prev_setPrev]

/-- An insertion writes all fields of its node, so these need not be cleared
before. -/
theorem pushBackLinks_bypass (links : Links α) (ends : Ends α) (node : α) :
    pushBackLinks (bypassLinks links node) ends node =
      pushBackLinks (deleteLinks links node) ends node := by
  ext1
  · funext other
    rw [pushBackLinks_next, pushBackLinks_next, deleteLinks_next]
    by_cases hnode : node = other
    · simp [hnode]
    · simp [hnode, bypassLinks, Links.next_setNext]
  · funext other
    rw [pushBackLinks_prev, pushBackLinks_prev, deleteLinks_prev]
    by_cases hnode : node = other
    · simp [hnode]
    · simp [hnode, bypassLinks, Links.prev_setPrev]

theorem insertSecondLinks_bypass (links : Links α) {front node : α}
    (hne : front ≠ node) :
    insertSecondLinks (bypassLinks links node) front node =
      insertSecondLinks (deleteLinks links node) front node := by
  have hfront : (bypassLinks links node).next front =
      (deleteLinks links node).next front := by
    rw [deleteLinks_next, if_neg hne.symm]
    simp [bypassLinks, Links.next_setNext]
  ext1
  · funext other
    rw [insertSecondLinks_next, insertSecondLinks_next, hfront]
    by_cases hnode : node = other
    · simp [hnode]
    · rw [deleteLinks_next links node other]
      simp [hnode, bypassLinks, Links.next_setNext]
  · funext other
    rw [insertSecondLinks_prev, insertSecondLinks_prev, hfront,
      deleteLinks_prev]
    by_cases hnode : node = other
    · simp [hnode]
    · simp [hnode, bypassLinks, Links.prev_setPrev]

theorem pushLinks_bypass (links : Links α) {ends : Ends α} (node : α)
    (hempty : ends.first = none) :
    pushLinks (bypassLinks links node) ends node =
      pushLinks (deleteLinks links node) ends node := by
  ext1
  · funext other
    rw [pushLinks_next, pushLinks_next, deleteLinks_next]
    by_cases hnode : node = other
    · simp [hnode]
    · simp [hnode, bypassLinks, Links.next_setNext]
  · funext other
    rw [pushLinks_prev, pushLinks_prev, deleteLinks_prev, hempty]
    by_cases hnode : node = other
    · simp [hnode]
    · simp [hnode, bypassLinks, Links.prev_setPrev]

theorem IsQueue.pushBack {links : Links α} {ends : Ends α} {l : List α}
    (h : IsQueue links ends l) {node : α} (hnode : node ∉ l) :
    IsQueue (pushBackLinks links ends node) (pushBackEnds ends node)
      (l ++ [node]) := by
  have hne : ∀ other ∈ l, node ≠ other := by
    rintro other hother rfl
    exact hnode hother
  refine ⟨?_, ?_, ?_, ?_⟩
  · rw [List.nodup_append]
    refine ⟨h.nodup, List.nodup_singleton node, ?_⟩
    intro other hother other' hother' heq
    rw [List.mem_singleton] at hother'
    exact hne other hother (hother'.symm.trans heq.symm)
  · rw [linked_append]
    constructor
    · apply h.linked.set_after h.nodup
      · intro other hother
        rw [pushBackLinks_next, h.last, if_neg (hne other hother)]
        rfl
      · intro other hother
        rw [pushBackLinks_prev, if_neg (hne other hother)]
    · refine ⟨?_, ?_, trivial⟩
      · rw [pushBackLinks_prev, if_pos rfl, h.last, Option.or_none]
      · have hnotLast : ends.last ≠ some node := by
          rw [h.last]
          intro heq
          exact hnode (List.mem_of_getLast? heq)
        rw [pushBackLinks_next, if_neg hnotLast, if_pos rfl]
        rfl
  · cases l with
    | nil =>
        have hnone : ends.last = none := h.last
        simp [pushBackEnds, hnone]
    | cons front rest =>
        have hsome : ends.last.isSome = true := by
          rw [h.last]
          simp
        have hfirst := h.first
        simp only [pushBackEnds, hsome, if_true]
        exact hfirst
  · rw [List.getLast?_concat]
    rfl

/-- Inserting a node outside the queue behind its first node. -/
theorem IsQueue.insertSecond {links : Links α} {ends : Ends α}
    {front node : α} {rest : List α}
    (h : IsQueue links ends (front :: rest))
    (hnode : node ∉ front :: rest) :
    IsQueue (insertSecondLinks links front node)
      (insertSecondEnds links ends front node) (front :: node :: rest) := by
  obtain ⟨hfront, hrest⟩ := List.nodup_cons.mp h.nodup
  rw [List.mem_cons, not_or] at hnode
  have hnext : links.next front = rest.head? := by
    have hlink := h.linked.2.1
    rw [Option.or_none] at hlink
    exact hlink
  have hneNext : links.next front ≠ some node := by
    rw [hnext]
    intro heq
    exact hnode.2 (List.mem_of_head? heq)
  have hneFront : links.next front ≠ some front := by
    rw [hnext]
    intro heq
    exact hfront (List.mem_of_head? heq)
  refine ⟨?_, ⟨?_, ?_, ?_, ?_, ?_⟩, ?_, ?_⟩
  · rw [List.nodup_cons, List.nodup_cons, List.mem_cons, not_or]
    exact ⟨⟨Ne.symm hnode.1, hfront⟩, hnode.2, hrest⟩
  · rw [insertSecondLinks_prev, if_neg hneFront, if_neg hnode.1]
    exact h.linked.1
  · rw [insertSecondLinks_next, if_pos rfl]
    rfl
  · rw [insertSecondLinks_prev, if_neg hneNext, if_pos rfl]
  · rw [insertSecondLinks_next, if_neg (Ne.symm hnode.1), if_pos rfl, hnext,
      Option.or_none]
  · apply h.linked.2.2.set_before hrest
    · intro other hother
      have hneOther : node ≠ other := by
        rintro rfl
        exact hnode.2 hother
      have hneFrontOther : front ≠ other := by
        rintro rfl
        exact hfront hother
      rw [insertSecondLinks_next, if_neg hneFrontOther, if_neg hneOther]
    · intro other hother
      have hneOther : node ≠ other := by
        rintro rfl
        exact hnode.2 hother
      rw [insertSecondLinks_prev, hnext, if_neg hneOther]
  · exact h.first
  · have hlast := h.last
    cases rest with
    | nil =>
        simp only [insertSecondEnds, hnext]
        simp
    | cons second tail =>
        simp only [insertSecondEnds, hnext]
        rw [List.getLast?_cons_cons] at hlast
        rw [List.getLast?_cons_cons, List.getLast?_cons_cons]
        exact hlast

theorem IsQueue.append {links : Links α} {ends ends' : Ends α}
    {l l' : List α} (h : IsQueue links ends l) (h' : IsQueue links ends' l')
    (hl : l ≠ []) (hl' : l' ≠ []) (hdisjoint : ∀ node ∈ l, node ∉ l') :
    IsQueue (appendLinks links ends ends') ⟨ends.first, ends'.last⟩
      (l ++ l') := by
  have hlastMem : ∀ node, ends.last = some node → node ∈ l := by
    intro node heq
    rw [h.last] at heq
    exact List.mem_of_getLast? heq
  have hfirstMem : ∀ node, ends'.first = some node → node ∈ l' := by
    intro node heq
    rw [h'.first] at heq
    exact List.mem_of_head? heq
  refine ⟨?_, ?_, ?_, ?_⟩
  · rw [List.nodup_append]
    refine ⟨h.nodup, h'.nodup, ?_⟩
    rintro node hnode other hother rfl
    exact hdisjoint node hnode hother
  · rw [linked_append, Option.or_none, Option.or_none]
    constructor
    · apply h.linked.set_after h.nodup
      · intro other hother
        rw [appendLinks_next, h.last, h'.first]
      · intro other hother
        rw [appendLinks_prev, if_neg]
        intro heq
        exact hdisjoint other hother (hfirstMem other heq)
    · apply h'.linked.set_before h'.nodup
      · intro other hother
        rw [appendLinks_next, if_neg]
        intro heq
        exact hdisjoint other (hlastMem other heq) hother
      · intro other hother
        rw [appendLinks_prev, h.last, h'.first]
  · have hfirst := h.first
    rw [List.head?_append_of_ne_nil l hl]
    exact hfirst
  · have hlast := h'.last
    rw [List.getLast?_append_of_ne_nil l hl']
    exact hlast

/-! ## Pushing and deleting in a family -/

variable [DecidableEq ι]

/-- Pushing a node that is in no queue of the family. -/
theorem IsFamily.push {links : Links α} {ends : ι → Ends α}
    {lists : ι → List α} (h : IsFamily links ends lists) (i : ι) {node : α}
    (hnode : ∀ j, node ∉ lists j) :
    IsFamily (pushLinks links (ends i) node)
      (Function.update ends i (pushEnds (ends i) node))
      (Function.update lists i (node :: lists i)) where
  queue j := by
    by_cases hj : j = i
    · subst hj
      simpa using (h.queue j).push (hnode j)
    · simp only [Function.update, hj, dite_false]
      apply (h.queue j).congr
      · intro other hother
        have hne : node ≠ other := by
          rintro rfl
          exact hnode j hother
        rw [pushLinks_next, if_neg hne]
      · intro other hother
        have hne : node ≠ other := by
          rintro rfl
          exact hnode j hother
        have hnotFirst : (ends i).first ≠ some other := by
          intro heq
          rw [(h.queue i).first] at heq
          exact hj (h.disjoint j i other hother (List.mem_of_head? heq))
        rw [pushLinks_prev, if_neg hnotFirst, if_neg hne]
  disjoint j k other hj hk := by
    by_cases hji : j = i
    · by_cases hki : k = i
      · rw [hji, hki]
      · subst hji
        simp only [Function.update_self, List.mem_cons] at hj
        simp only [Function.update, hki, dite_false] at hk
        rcases hj with rfl | hj
        · exact absurd hk (hnode k)
        · exact h.disjoint _ _ other hj hk
    · by_cases hki : k = i
      · subst hki
        simp only [Function.update_self, List.mem_cons] at hk
        simp only [Function.update, hji, dite_false] at hj
        rcases hk with rfl | hk
        · exact absurd hj (hnode j)
        · exact h.disjoint _ _ other hj hk
      · simp only [Function.update, hji, hki, dite_false] at hj hk
        exact h.disjoint _ _ other hj hk

/-- Deleting a node from its queue. -/
theorem IsFamily.delete {links : Links α} {ends : ι → Ends α}
    {lists : ι → List α} (h : IsFamily links ends lists) {i : ι} {node : α}
    (hnode : node ∈ lists i) :
    IsFamily (deleteLinks links node)
      (Function.update ends i (deleteEnds links (ends i) node))
      (Function.update lists i ((lists i).erase node)) := by
  obtain ⟨before, after, hsplit⟩ := List.append_of_mem hnode
  have hqueue := h.queue i
  have hnotBefore : node ∉ before := by
    have hnodup := hqueue.nodup
    rw [hsplit, List.nodup_append] at hnodup
    exact fun hmem => hnodup.2.2 node hmem node (by simp) rfl
  have herase : (lists i).erase node = before ++ after := by
    rw [hsplit, List.erase_append_right _ hnotBefore, List.erase_cons_head]
  rw [herase]
  rw [hsplit] at hqueue
  have hmem : ∀ other, other ∈ before ++ after → other ∈ lists i := by
    intro other hother
    rw [hsplit]
    simp only [List.mem_append, List.mem_cons] at hother ⊢
    tauto
  constructor
  · intro j
    by_cases hj : j = i
    · subst hj
      simpa using hqueue.delete
    · simp only [Function.update, hj, dite_false]
      have houtside : ∀ other ∈ lists j, other ∉ lists i :=
        fun other hother hmem' => hj (h.disjoint j i other hother hmem')
      apply (h.queue j).congr
      · intro other hother
        have hne : node ≠ other := by
          rintro rfl
          exact houtside _ hother hnode
        have hnotPrev : links.prev node ≠ some other := by
          rw [hqueue.prev_eq]
          intro heq
          apply houtside other hother
          rw [hsplit]
          simp [List.mem_of_getLast? heq]
        rw [deleteLinks_next, if_neg hne, if_neg hnotPrev]
      · intro other hother
        have hne : node ≠ other := by
          rintro rfl
          exact houtside _ hother hnode
        have hnotNext : links.next node ≠ some other := by
          rw [hqueue.next_eq]
          intro heq
          apply houtside other hother
          rw [hsplit]
          simp [List.mem_of_head? heq]
        rw [deleteLinks_prev, if_neg hne, if_neg hnotNext]
  · intro j k other hj hk
    have hlift : ∀ m, other ∈ Function.update lists i (before ++ after) m →
        other ∈ lists m := by
      intro m hm
      by_cases hmi : m = i
      · subst hmi
        exact hmem other (by simpa using hm)
      · simpa [Function.update, hmi] using hm
    exact h.disjoint j k other (hlift j hj) (hlift k hk)

omit [DecidableEq α] in
/-- A new queue in the place of one of the family. -/
theorem IsFamily.replace {links links' : Links α} {ends : ι → Ends α}
    {lists : ι → List α} (h : IsFamily links ends lists) (i : ι)
    {ends' : Ends α} {l' : List α} (hqueue : IsQueue links' ends' l')
    (hmem : ∀ node ∈ l', ∀ j, j ≠ i → node ∉ lists j)
    (hframe : ∀ j, j ≠ i → ∀ node ∈ lists j,
      links'.next node = links.next node ∧
        links'.prev node = links.prev node) :
    IsFamily links' (Function.update ends i ends')
      (Function.update lists i l') where
  queue j := by
    by_cases hj : j = i
    · subst hj
      simpa using hqueue
    · rw [Function.update_of_ne hj, Function.update_of_ne hj]
      exact (h.queue j).congr (fun node hnode => (hframe j hj node hnode).1)
        (fun node hnode => (hframe j hj node hnode).2)
  disjoint j k node hj hk := by
    by_cases hji : j = i
    · by_cases hki : k = i
      · rw [hji, hki]
      · subst hji
        rw [Function.update_self] at hj
        rw [Function.update_of_ne hki] at hk
        exact absurd hk (hmem node hj k hki)
    · by_cases hki : k = i
      · subst hki
        rw [Function.update_self] at hk
        rw [Function.update_of_ne hji] at hj
        exact absurd hj (hmem node hk j hji)
      · rw [Function.update_of_ne hji] at hj
        rw [Function.update_of_ne hki] at hk
        exact h.disjoint j k node hj hk

/-- Inserting a node that is in no queue at the end of one. -/
theorem IsFamily.pushBack {links : Links α} {ends : ι → Ends α}
    {lists : ι → List α} (h : IsFamily links ends lists) (i : ι) {node : α}
    (hnode : ∀ j, node ∉ lists j) :
    IsFamily (pushBackLinks links (ends i) node)
      (Function.update ends i (pushBackEnds (ends i) node))
      (Function.update lists i (lists i ++ [node])) := by
  apply h.replace i ((h.queue i).pushBack (hnode i))
  · intro other hother j hj hmem
    rcases List.mem_append.mp hother with hold | hnew
    · exact hj (h.disjoint j i other hmem hold)
    · rw [List.mem_singleton] at hnew
      subst hnew
      exact hnode j hmem
  · intro j hj other hother
    have hne : node ≠ other := by
      rintro rfl
      exact hnode j hother
    have hnotLast : (ends i).last ≠ some other := by
      rw [(h.queue i).last]
      intro heq
      exact hj (h.disjoint j i other hother (List.mem_of_getLast? heq))
    rw [pushBackLinks_next, pushBackLinks_prev, if_neg hnotLast, if_neg hne,
      if_neg hne]
    exact ⟨rfl, rfl⟩

/-- Inserting a node that is in no queue behind the first node of one. -/
theorem IsFamily.insertSecond {links : Links α} {ends : ι → Ends α}
    {lists : ι → List α} (h : IsFamily links ends lists) {i : ι}
    {front node : α} {rest : List α} (hlist : lists i = front :: rest)
    (hnode : ∀ j, node ∉ lists j) :
    IsFamily (insertSecondLinks links front node)
      (Function.update ends i (insertSecondEnds links (ends i) front node))
      (Function.update lists i (front :: node :: rest)) := by
  have hqueue := h.queue i
  have hnodei := hnode i
  rw [hlist] at hqueue hnodei
  have hnextEq := hqueue.linked.2.1
  rw [Option.or_none] at hnextEq
  have hin : ∀ other ∈ front :: rest, other ∈ lists i := by
    intro other hother
    rw [hlist]
    exact hother
  apply h.replace i (hqueue.insertSecond hnodei)
  · intro other hother j hj hmem
    rw [List.mem_cons, List.mem_cons] at hother
    rcases hother with rfl | rfl | hrest
    · exact hj (h.disjoint j i other hmem (hin other (by simp)))
    · exact hnode j hmem
    · exact hj (h.disjoint j i other hmem (hin other (by simp [hrest])))
  · intro j hj other hother
    have houtside : other ∉ lists i := fun hmem =>
      hj (h.disjoint j i other hother hmem)
    have hne : node ≠ other := by
      rintro rfl
      exact hnode j hother
    have hneFront : front ≠ other := by
      rintro rfl
      exact houtside (hin front (by simp))
    have hneNext : links.next front ≠ some other := by
      rw [hnextEq]
      intro heq
      exact houtside (hin other (by simp [List.mem_of_head? heq]))
    rw [insertSecondLinks_next, insertSecondLinks_prev, if_neg hneFront,
      if_neg hne, if_neg hneNext, if_neg hne]
    exact ⟨rfl, rfl⟩

/-- Putting one queue of the family behind another. -/
theorem IsFamily.append {links : Links α} {ends : ι → Ends α}
    {lists : ι → List α} (h : IsFamily links ends lists) {i j : ι}
    (hne : i ≠ j) (hi : lists i ≠ []) (hj : lists j ≠ []) :
    IsFamily (appendLinks links (ends i) (ends j))
      (Function.update (Function.update ends j Ends.empty) i
        ⟨(ends i).first, (ends j).last⟩)
      (Function.update (Function.update lists j []) i
        (lists i ++ lists j)) := by
  have hcross : ∀ node ∈ lists i, node ∉ lists j := fun node hnode hmem =>
    hne (h.disjoint i j node hnode hmem)
  have hempty := h.replace j (IsQueue.nil links) (by simp)
    (fun k _ node _ => ⟨rfl, rfl⟩)
  apply hempty.replace i ((h.queue i).append (h.queue j) hi hj hcross)
  · intro node hnode k hk hmem
    by_cases hkj : k = j
    · subst hkj
      simp at hmem
    · rw [Function.update_of_ne hkj] at hmem
      rcases List.mem_append.mp hnode with hnode | hnode
      · exact hk (h.disjoint k i node hmem hnode)
      · exact hkj (h.disjoint k j node hmem hnode)
  · intro k hk node hnode
    by_cases hkj : k = j
    · subst hkj
      simp at hnode
    · rw [Function.update_of_ne hkj] at hnode
      have hnotLast : (ends i).last ≠ some node := by
        rw [(h.queue i).last]
        intro heq
        exact hk (h.disjoint k i node hnode (List.mem_of_getLast? heq))
      have hnotFirst : (ends j).first ≠ some node := by
        rw [(h.queue j).first]
        intro heq
        exact hkj (h.disjoint k j node hnode (List.mem_of_head? heq))
      rw [appendLinks_next, appendLinks_prev, if_neg hnotLast,
        if_neg hnotFirst]
      exact ⟨rfl, rfl⟩

omit [DecidableEq α] in
theorem IsFamily.takeOver {links : Links α} {ends : ι → Ends α}
    {lists : ι → List α} (h : IsFamily links ends lists) (i j : ι) :
    IsFamily links
      (Function.update (Function.update ends j Ends.empty) i (ends j))
      (Function.update (Function.update lists j []) i (lists j)) := by
  have hempty := h.replace j (IsQueue.nil links) (by simp)
    (fun k _ node _ => ⟨rfl, rfl⟩)
  apply hempty.replace i (h.queue j)
  · intro node hnode k hk hmem
    by_cases hkj : k = j
    · subst hkj
      simp at hmem
    · rw [Function.update_of_ne hkj] at hmem
      exact hkj (h.disjoint k j node hmem hnode)
  · intro k hk node hnode
    exact ⟨rfl, rfl⟩

/-! ## Nodes outside the queues -/

omit [DecidableEq ι] in
/-- A deletion changes no link of a node that is in no queue. -/
theorem IsFamily.deleteLinks_outside {links : Links α} {ends : ι → Ends α}
    {lists : ι → List α} (h : IsFamily links ends lists) {i : ι}
    {node other : α} (hnode : node ∈ lists i)
    (hother : ∀ j, other ∉ lists j) :
    (deleteLinks links node).next other = links.next other ∧
      (deleteLinks links node).prev other = links.prev other := by
  have hne : node ≠ other := by
    rintro rfl
    exact hother i hnode
  obtain ⟨hnext, hprev⟩ := (h.queue i).neighbours hnode
  constructor
  · rw [deleteLinks_next, if_neg hne, if_neg]
    exact fun heq => hother i (hprev other heq)
  · rw [deleteLinks_prev, if_neg hne, if_neg]
    exact fun heq => hother i (hnext other heq)

omit [DecidableEq ι] in
theorem IsFamily.pushLinks_outside {links : Links α} {ends : ι → Ends α}
    {lists : ι → List α} (h : IsFamily links ends lists) (i : ι)
    {node other : α} (hne : node ≠ other) (hother : ∀ j, other ∉ lists j) :
    (pushLinks links (ends i) node).next other = links.next other ∧
      (pushLinks links (ends i) node).prev other = links.prev other := by
  constructor
  · rw [pushLinks_next, if_neg hne]
  · rw [pushLinks_prev, if_neg, if_neg hne]
    rw [(h.queue i).first]
    exact fun heq => hother i (List.mem_of_head? heq)

theorem deleteLinks_unlinked {links : Links α} {node : α}
    (hnext : links.next node = none) (hprev : links.prev node = none) :
    deleteLinks links node = links := by
  ext1
  · funext other
    rw [deleteLinks_next, hprev]
    split
    · rename_i heq
      rw [← heq, hnext]
    · simp
  · funext other
    rw [deleteLinks_prev, hnext]
    split
    · rename_i heq
      rw [← heq, hprev]
    · simp

omit [DecidableEq ι] in
theorem IsFamily.deleteEnds_outside {links : Links α} {ends : ι → Ends α}
    {lists : ι → List α} (h : IsFamily links ends lists) (i : ι) {node : α}
    (hnode : ∀ j, node ∉ lists j) :
    deleteEnds links (ends i) node = ends i := by
  have hfirst : (ends i).first ≠ some node := by
    rw [(h.queue i).first]
    exact fun heq => hnode i (List.mem_of_head? heq)
  have hlast : (ends i).last ≠ some node := by
    rw [(h.queue i).last]
    exact fun heq => hnode i (List.mem_of_getLast? heq)
  simp [deleteEnds, hfirst, hlast]

end Operations

end LinkedQueue
