import Palloc.DelayedFreeFlags
import Palloc.SharedStacks

/-!
# Where the freed blocks are

The `xthread_free` lists, the delayed lists of the heaps, the local lists of
the pages and the two lists that only the owner knows share the first word of
the blocks as their link.  `Placement` says that these lists are disjoint
stacks, that a thread keeps its block private until it has pushed it, and that
the owner keeps the block private that it frees.  Every step moves blocks from
one place to another as a whole.
-/

namespace Palloc

open LinkedChain SharedStacks

inductive Place where
  | thread (page : ℕ)
  | delayed (heap : ℕ)
  | localFree (page : ℕ)
  | free (page : ℕ)
  /-- Taken over from `xthread_free` by the owner. -/
  | collected (page : ℕ)
  /-- Taken over from a delayed list by the owner. -/
  | visiting
  deriving DecidableEq

def Place.page : Place → Option ℕ
  | .thread page | .localFree page | .free page | .collected page => some page
  | .delayed _ | .visiting => none

def placeHead (mem : FreeMemory) (owner : OwnerPc) : Place → Option Addr
  | .thread page => (mem.xthreadFree page).block
  | .delayed heap => mem.threadDelayedFree heap
  | .localFree page => mem.localFree page
  | .free page => mem.free page
  | .collected page =>
      owner.collected.bind fun (other, head) =>
        if page = other then some head else none
  | .visiting => owner.rest

theorem placeHead_owner (mem : FreeMemory) {pc pc' : OwnerPc}
    (hrest : pc'.rest = pc.rest) (hcollected : pc'.collected = pc.collected) :
    placeHead mem pc' = placeHead mem pc := by
  funext r
  cases r with
  | collected page => simp only [placeHead, hcollected]
  | visiting => exact hrest
  | _ => rfl

theorem placeHead_setFlag (mem : FreeMemory) (owner : OwnerPc) (page : ℕ)
    (delay : Delayed) :
    placeHead
        (mem.setThreadFree page ⟨(mem.xthreadFree page).block, delay⟩) owner =
      placeHead mem owner := by
  funext r
  cases r <;>
    simp only [placeHead, FreeMemory.setThreadFree, Function.update_apply]
  split
  · next hpage => rw [hpage]
  · rfl

structure Placement {ι : Type*} (sys : FreeSystem ι) (st : FreeState ι)
    (loc : Addr → Option Place) : Prop where
  lists : Stacks st.mem.next (placeHead st.mem st.owner) loc
  carved : ∀ block place, loc block = some place →
    block ∈ sys.carved (sys.pageOf block)
  onPage : ∀ block place page, loc block = some place →
    place.page = some page → sys.pageOf block = page
  held : ∀ i, (st.pc i).Holds →
    loc (sys.block i) = none ∧ st.owner.block ≠ some (sys.block i)
  placed : ∀ i, ¬ (st.pc i).Holds →
    loc (sys.block i) ≠ none ∨ st.owner.block = some (sys.block i)
  owned : ∀ block, st.owner.block = some block →
    loc block = none ∧ block ∈ sys.carved (sys.pageOf block)

def moveAll (loc : Addr → Option Place) (source target : Place) :
    Addr → Option Place :=
  fun block => if loc block = some source then some target else loc block

inductive Moved {ι : Type*} (sys : FreeSystem ι) (st : FreeState ι)
    (block : Addr) : Option Place → Option Place → Prop where
  | stay (place : Option Place) : Moved sys st block place place
  | pushThread (i : ι) (hblock : sys.block i = block)
      (hholds : (st.pc i).Holds) :
      Moved sys st block none (some (.thread (sys.page i)))
  | pushDelayed (i : ι) (heap : ℕ) (hblock : sys.block i = block)
      (hholds : (st.pc i).Holds) (hheap : (st.pc i).heap = some heap) :
      Moved sys st block none (some (.delayed heap))
  | collect (page : ℕ) :
      Moved sys st block (some (.thread page)) (some (.collected page))
  | append (page : ℕ) :
      Moved sys st block (some (.collected page)) (some (.localFree page))
  | toFree (page : ℕ) :
      Moved sys st block (some (.localFree page)) (some (.free page))
  | take (heap : ℕ) (all : Bool) (head : Addr)
      (howner : st.owner = .takeExchange heap all head) :
      Moved sys st block (some (.delayed heap)) (some .visiting)
  | visit : Moved sys st block (some .visiting) none
  | freeLocal (howner : st.owner.block = some block) :
      Moved sys st block none (some (.localFree (sys.pageOf block)))
  | reinsert (visit : Visit) (dfree : Option Addr)
      (howner : st.owner = .reinsertExchange visit dfree)
      (hblock : visit.block = block) :
      Moved sys st block none (some (.delayed visit.heap))

section Moved

variable {ι : Type*} {sys : FreeSystem ι} {st : FreeState ι}
  {loc : Addr → Option Place}

theorem moveAll_eq_none (source target : Place) {block : Addr} :
    moveAll loc source target block = none ↔ loc block = none := by
  unfold moveAll
  split
  · next hloc => simp [hloc]
  · exact Iff.rfl

theorem moveAll_moved {source target : Place} (block : Addr)
    (hmoved : Moved sys st block (some source) (some target)) :
    Moved sys st block (loc block) (moveAll loc source target block) := by
  unfold moveAll
  split
  · next hloc =>
      rw [hloc]
      exact hmoved
  · exact .stay _

theorem update_moved {block : Addr} {target : Option Place} (other : Addr)
    (hmoved : Moved sys st block (loc block) target) :
    Moved sys st other (loc other)
      (Function.update loc block target other) := by
  by_cases hother : other = block
  · rw [hother, Function.update_self]
    exact hmoved
  · rw [Function.update_of_ne hother]
    exact .stay _

end Moved

namespace Placement

variable {ι : Type*} {sys : FreeSystem ι} {st : FreeState ι}
  {loc : Addr → Option Place}

/-! ## Lengths -/

/-- The blocks of a list of one page are carved blocks of that page, each
once, so the list is no longer than the capacity. -/
theorem length_le (h : Placement sys st loc) {place : Place} {page : ℕ}
    (hpage : place.page = some page) {l : List Addr}
    (hchain : IsChain st.mem.next (placeHead st.mem st.owner place) l) :
    l.length ≤ sys.capacity page := by
  have hsub : l ⊆ sys.carved page := by
    intro block hblock
    have hloc : loc block = some place :=
      h.lists.loc_iff.mpr ⟨l, hchain, hblock⟩
    rw [← h.onPage block place page hloc hpage]
    exact h.carved block place hloc
  exact (hchain.nodup.subperm hsub).length_le.trans (sys.length_carved page)

/-- The chain of a non-empty list of a page, with its last block. -/
theorem chain_last (h : Placement sys st loc) (place : Place) {page : ℕ}
    (hpage : place.page = some page) {head : Addr}
    (hhead : placeHead st.mem st.owner place = some head) :
    ∃ rest before last,
      IsChain st.mem.next (st.mem.next head) rest ∧
        (head :: rest).length ≤ sys.capacity page ∧
        head :: rest = before ++ [last] ∧
        IsChain st.mem.next (placeHead st.mem st.owner place)
          (before ++ [last]) := by
  obtain ⟨l, hchain, -⟩ := h.lists place
  have hlength := h.length_le hpage hchain
  rw [hhead] at hchain ⊢
  obtain ⟨rest, rfl, hrest⟩ := hchain.exists_rest
  have hsplit := List.dropLast_append_getLast (l := head :: rest) (by simp)
  refine ⟨rest, _, _, hrest, hlength, hsplit.symm, ?_⟩
  rw [hsplit]
  exact hchain

/-! ## Steps of a thread -/

section Thread

variable [DecidableEq ι]

/-- A step that neither changes a list nor who holds a block. -/
theorem thread_quiet (h : Placement sys st loc) {i : ι} {pc' : FreePc}
    {mem' : FreeMemory}
    (hlists : Stacks mem'.next (placeHead mem' st.owner) loc)
    (hholds : pc'.Holds ↔ (st.pc i).Holds) :
    Placement sys
      { st with mem := mem', pc := Function.update st.pc i pc' } loc := by
  have hsame : ∀ j,
      (Function.update st.pc i pc' j).Holds ↔ (st.pc j).Holds := by
    intro j
    by_cases hj : j = i
    · subst hj
      rw [Function.update_self]
      exact hholds
    · rw [Function.update_of_ne hj]
  exact
    { lists := hlists
      carved := h.carved
      onPage := h.onPage
      held := fun j hj => h.held j ((hsame j).mp hj)
      placed := fun j hj => h.placed j (mt (hsame j).mpr hj)
      owned := h.owned }

/-- The thread pushes its block. -/
theorem thread_push (h : Placement sys st loc) {i : ι} {pc' : FreePc}
    {mem' : FreeMemory} (place : Place)
    (hheld : (st.pc i).Holds) (hpushed : ¬ pc'.Holds)
    (hpage : ∀ page, place.page = some page → sys.page i = page)
    (hnext : mem'.next = Function.update st.mem.next (sys.block i)
      (placeHead st.mem st.owner place))
    (hhead : ∀ r, placeHead mem' st.owner r =
      if r = place then some (sys.block i)
      else placeHead st.mem st.owner r) :
    Placement sys
      { st with mem := mem', pc := Function.update st.pc i pc' }
      (Function.update loc (sys.block i) (some place)) := by
  obtain ⟨hprivate, hnotOwned⟩ := h.held i hheld
  have hother : ∀ j, (Function.update st.pc i pc' j).Holds →
      j ≠ i ∧ (st.pc j).Holds := by
    intro j hj
    by_cases hji : j = i
    · rw [hji, Function.update_self] at hj
      exact absurd hj hpushed
    · rw [Function.update_of_ne hji] at hj
      exact ⟨hji, hj⟩
  constructor
  · show Stacks mem'.next (placeHead mem' st.owner) _
    rw [hnext]
    apply (h.lists.write hprivate _).push hprivate
      (Function.update_self ..) hhead
    intro other
    exact Function.update_apply ..
  · intro block target hloc
    by_cases hblock : block = sys.block i
    · rw [hblock]
      exact sys.block_carved i
    · rw [Function.update_of_ne hblock] at hloc
      exact h.carved block target hloc
  · intro block target page hloc htarget
    by_cases hblock : block = sys.block i
    · rw [hblock, Function.update_self, Option.some.injEq] at hloc
      subst hloc
      rw [hblock]
      exact hpage page htarget
    · rw [Function.update_of_ne hblock] at hloc
      exact h.onPage block target page hloc htarget
  · intro j hj
    obtain ⟨hji, hj⟩ := hother j hj
    rw [Function.update_of_ne fun heq => hji (sys.block_injective heq)]
    exact h.held j hj
  · intro j hj
    by_cases hji : j = i
    · rw [hji, Function.update_self]
      exact .inl (Option.some_ne_none place)
    · rw [Function.update_of_ne fun heq => hji (sys.block_injective heq)]
      have hj' : ¬ (st.pc j).Holds := by
        intro hholds
        apply hj
        show (Function.update st.pc i pc' j).Holds
        rwa [Function.update_of_ne hji]
      exact h.placed j hj'
  · intro block howner
    have hne : block ≠ sys.block i := by
      rintro rfl
      exact hnotOwned howner
    rw [Function.update_of_ne hne]
    exact h.owned block howner

/-- A thread only ever moves its own block, and from its own hands. -/
theorem thread (h : Placement sys st loc) {i : ι} {pc' : FreePc}
    {mem' : FreeMemory}
    (hmove : FreeMove (sys.page i) (sys.block i) st.mem (st.pc i) pc' mem')
    (hheap : (st.pc i).Inside → st.mem.xheap (sys.page i) ≠ none) :
    ∃ loc',
      Placement sys
        { st with mem := mem', pc := Function.update st.pc i pc' } loc' ∧
      ∀ block, Moved sys st block (loc block) (loc' block) := by
  generalize hpc : st.pc i = pc at hmove hheap
  cases hmove with
  | quiet hmem _ hholds =>
      rw [← hpc] at hholds
      refine ⟨loc, h.thread_quiet ?_ hholds, fun block => .stay _⟩
      rcases hmem with rfl | ⟨target, rfl, hheld⟩
      · exact h.lists
      · exact h.lists.write (h.held i (by rw [hpc]; exact hheld)).1 target
  | claim _ _ hholds =>
      refine ⟨loc, h.thread_quiet ?_ ?_, fun block => .stay _⟩
      · rw [placeHead_setFlag]
        exact h.lists
      · rw [hpc]
        exact iff_of_true trivial hholds
  | pushThread _ hholds =>
      rw [← hpc] at hholds
      refine ⟨_, h.thread_push (.thread (sys.page i)) hholds not_false
        ?_ rfl ?_, fun block => update_moved block ?_⟩
      · intro page hpage
        exact Option.some.inj hpage
      · intro r
        cases r <;>
          simp [placeHead, FreeMemory.setThreadFree, FreeMemory.setNext,
            Function.update_apply]
        split <;> rfl
      · rw [(h.held i hholds).1]
        exact .pushThread i rfl hholds
  | @pushDelayed heap dfree =>
      have hholds : (st.pc i).Holds := by
        rw [hpc]
        trivial
      refine ⟨_, h.thread_push (.delayed heap) hholds not_false
        ?_ rfl ?_, fun block => update_moved block ?_⟩
      · intro page hpage
        cases hpage
      · intro r
        cases r <;>
          simp [placeHead, FreeMemory.setDelayedFree, FreeMemory.setNext,
            Function.update_apply]
      · rw [(h.held i hholds).1]
        exact .pushDelayed i heap rfl hholds (by rw [hpc]; rfl)
  | noHeap hnone => exact absurd hnone (hheap trivial)
  | reset =>
      refine ⟨loc, h.thread_quiet ?_ ?_, fun block => .stay _⟩
      · rw [placeHead_setFlag]
        exact h.lists
      · rw [hpc]
        exact Iff.rfl

end Thread

/-! ## Steps of the owner -/

section Owner

variable {pc' : OwnerPc} {mem' : FreeMemory}

theorem owner_same (h : Placement sys st loc)
    (hlists : Stacks mem'.next (placeHead mem' pc') loc)
    (hblock : pc'.block = st.owner.block) :
    Placement sys { st with mem := mem', owner := pc' } loc := by
  constructor
  · exact hlists
  · exact h.carved
  · exact h.onPage
  · intro i hi
    show _ ∧ pc'.block ≠ _
    rw [hblock]
    exact h.held i hi
  · intro i hi
    show _ ∨ pc'.block = _
    rw [hblock]
    exact h.placed i hi
  · intro block howner
    exact h.owned block (hblock.symm.trans howner)

/-- The owner moves a whole list. -/
theorem owner_moveAll (h : Placement sys st loc) {source target : Place}
    (hpage : ∀ page, target.page = some page → source.page = some page)
    (hlists : Stacks mem'.next (placeHead mem' pc')
      (moveAll loc source target))
    (hblock : pc'.block = st.owner.block) :
    Placement sys { st with mem := mem', owner := pc' }
      (moveAll loc source target) := by
  constructor
  · exact hlists
  · intro block place hloc
    unfold moveAll at hloc
    split at hloc
    · next hsource => exact h.carved block source hsource
    · exact h.carved block place hloc
  · intro block place page hloc hplace
    unfold moveAll at hloc
    split at hloc
    · next hsource =>
        cases hloc
        exact h.onPage block source page hsource (hpage page hplace)
    · exact h.onPage block place page hloc hplace
  · intro i hi
    show _ ∧ pc'.block ≠ _
    rw [hblock, moveAll_eq_none]
    exact h.held i hi
  · intro i hi
    show _ ∨ pc'.block = _
    rw [hblock, ne_eq, moveAll_eq_none]
    exact h.placed i hi
  · intro block howner
    rw [moveAll_eq_none]
    exact h.owned block (hblock.symm.trans howner)

/-- The owner starts to free the next block of the list that it visits. -/
theorem owner_visit (h : Placement sys st loc) {block : Addr}
    (hrest : st.owner.rest = some block) (hidle : st.owner.block = none)
    (hlists : Stacks mem'.next (placeHead mem' pc')
      (Function.update loc block none))
    (hblock : pc'.block = some block) :
    Placement sys { st with mem := mem', owner := pc' }
      (Function.update loc block none) := by
  have hvisiting : loc block = some .visiting := h.lists.head_loc hrest
  have hkeep : ∀ other place, Function.update loc block none other =
      some place → loc other = some place := by
    intro other place hloc
    by_cases hother : other = block
    · rw [hother, Function.update_self] at hloc
      cases hloc
    · rwa [Function.update_of_ne hother] at hloc
  constructor
  · exact hlists
  · intro other place hloc
    exact h.carved other place (hkeep other place hloc)
  · intro other place page hloc
    exact h.onPage other place page (hkeep other place hloc)
  · intro i hi
    obtain ⟨hprivate, -⟩ := h.held i hi
    have hne : sys.block i ≠ block := by
      intro heq
      rw [heq, hvisiting] at hprivate
      cases hprivate
    show _ ∧ pc'.block ≠ _
    rw [Function.update_of_ne hne, hblock, ne_eq, Option.some.injEq]
    exact ⟨hprivate, hne.symm⟩
  · intro i hi
    show _ ∨ pc'.block = _
    by_cases heq : sys.block i = block
    · rw [hblock, heq]
      exact .inr rfl
    · rw [Function.update_of_ne heq]
      rcases h.placed i hi with hplaced | howner
      · exact .inl hplaced
      · rw [hidle] at howner
        cases howner
  · intro other howner
    have hother : other = block := by
      have hsame : some block = some other := hblock.symm.trans howner
      exact (Option.some.inj hsame).symm
    rw [hother, Function.update_self]
    exact ⟨rfl, h.carved block .visiting hvisiting⟩

/-- The owner pushes the block that it frees. -/
theorem owner_push (h : Placement sys st loc) {block : Addr} {place : Place}
    (howned : st.owner.block = some block) (hblock : pc'.block = none)
    (hpage : ∀ page, place.page = some page → sys.pageOf block = page)
    (hnext : mem'.next = Function.update st.mem.next block
      (placeHead st.mem st.owner place))
    (hhead : ∀ r, placeHead mem' pc' r =
      if r = place then some block else placeHead st.mem st.owner r) :
    Placement sys { st with mem := mem', owner := pc' }
      (Function.update loc block (some place)) := by
  obtain ⟨hprivate, hcarved⟩ := h.owned block howned
  constructor
  · show Stacks mem'.next (placeHead mem' pc') _
    rw [hnext]
    apply (h.lists.write hprivate _).push hprivate
      (Function.update_self ..) hhead
    intro other
    exact Function.update_apply ..
  · intro other target hloc
    by_cases hother : other = block
    · rw [hother]
      exact hcarved
    · rw [Function.update_of_ne hother] at hloc
      exact h.carved other target hloc
  · intro other target page hloc htarget
    by_cases hother : other = block
    · rw [hother, Function.update_self, Option.some.injEq] at hloc
      subst hloc
      rw [hother]
      exact hpage page htarget
    · rw [Function.update_of_ne hother] at hloc
      exact h.onPage other target page hloc htarget
  · intro i hi
    obtain ⟨hfree, hnotOwned⟩ := h.held i hi
    have hne : sys.block i ≠ block := by
      rintro rfl
      exact hnotOwned howned
    show _ ∧ pc'.block ≠ _
    rw [Function.update_of_ne hne, hblock]
    exact ⟨hfree, (Option.some_ne_none _).symm⟩
  · intro i hi
    refine .inl ?_
    by_cases heq : sys.block i = block
    · rw [heq, Function.update_self]
      exact Option.some_ne_none place
    · rw [Function.update_of_ne heq]
      rcases h.placed i hi with hplaced | howner
      · exact hplaced
      · rw [howned, Option.some.injEq] at howner
        exact absurd howner.symm heq
  · intro other howner
    have hnone : pc'.block = some other := howner
    rw [hblock] at hnone
    cases hnone

theorem owner (h : Placement sys st loc)
    (hmove : OwnerMove sys.pageOf sys.capacity st.mem st.owner pc' mem') :
    ∃ loc', Placement sys { st with mem := mem', owner := pc' } loc' ∧
      ∀ block, Moved sys st block (loc block) (loc' block) := by
  generalize howner : st.owner = pc at hmove
  have hlists := h.lists
  rw [howner] at hlists
  cases hmove with
  | quiet hmem hblock hrest hcollected =>
      refine ⟨loc, h.owner_same ?_ (by rw [hblock, howner]),
        fun block => .stay _⟩
      have hhead : placeHead st.mem pc' = placeHead st.mem pc :=
        placeHead_owner st.mem hrest (by rw [hcollected.1, hcollected.2])
      rcases hmem with rfl | ⟨block, target, howned, rfl⟩
      · rw [hhead]
        exact hlists
      · show Stacks _ (placeHead st.mem pc') loc
        rw [hhead]
        exact hlists.write (h.owned block (by rw [howner, howned])).1 target
  | @collect page tfree within _ hblock hrest hcollected =>
      refine ⟨moveAll loc (.thread page) (.collected page),
        h.owner_moveAll (fun _ hpage => hpage) ?_ (by rw [hblock, howner]; rfl),
        fun block => moveAll_moved block (.collect page)⟩
      refine hlists.take rfl (by simp) ?_ (fun _ => rfl)
      intro r
      cases r with
      | collected other =>
          simp only [placeHead, hcollected, Place.collected.injEq]
          cases (st.mem.xthreadFree page).block with
          | none => simp [OwnerPc.collected]
          | some head => simp [OwnerPc.collected]
      | visiting => exact hrest
      | thread other =>
          simp [placeHead, FreeMemory.setThreadFree, Function.update_apply]
          split <;> rfl
      | _ => simp [placeHead, FreeMemory.setThreadFree]
  | @append page head within =>
      obtain ⟨hblock, hrest, hcollected⟩ :=
        afterThreadFreeCollect_held page within
      have hhead : placeHead st.mem st.owner (.collected page) = some head := by
        rw [howner]
        simp [placeHead, OwnerPc.collected]
      obtain ⟨rest, before, last, hchain, hlength, hsplit, hwhole⟩ :=
        h.chain_last (.collected page) rfl hhead
      have hlast : (head :: rest).getLast (by simp) = last := by
        simp [hsplit]
      have hwalk := collectTail_spec (sys.capacity page) 1 hchain
        (by simp at hlength; omega)
      rw [hlast] at hwalk
      have hfits : ¬ sys.capacity page < 1 + rest.length := by
        simp at hlength
        omega
      simp only [hwalk, if_neg hfits]
      refine ⟨moveAll loc (.collected page) (.localFree page),
        h.owner_moveAll (fun _ hpage => hpage) ?_ (by rw [hblock, howner]; rfl),
        fun block => moveAll_moved block (.append page)⟩
      rw [howner] at hwhole
      apply hlists.splice (p := .collected page) (q := .localFree page)
        (by simp) hwhole
      · intro r
        cases r with
        | collected other =>
            simp only [placeHead, hcollected]
            simp [OwnerPc.collected]
        | visiting => exact hrest
        | localFree other =>
            simp [placeHead, OwnerPc.collected, Function.update_apply]
        | _ => simp [placeHead, FreeMemory.setNext]
      · exact fun _ => rfl
  | @moveFree page force after head hlocal hfree =>
      refine ⟨moveAll loc (.localFree page) (.free page),
        h.owner_moveAll (fun _ hpage => hpage) ?_
          (by rw [after.pc_block, howner]; rfl),
        fun block => moveAll_moved block (.toFree page)⟩
      have hrest : after.pc.rest =
          OwnerPc.rest (.moveLocalFree page force after) := after.pc_rest
      have hcollected : after.pc.collected =
          OwnerPc.collected (.moveLocalFree page force after) :=
        after.pc_collected
      rw [placeHead_owner _ hrest hcollected]
      have hempty : placeHead st.mem (.moveLocalFree page force after)
          (.free page) = none := hfree
      apply hlists.take (p := .localFree page) hempty (by simp)
      · intro r
        cases r <;> simp [placeHead, Function.update_apply]
      · exact fun _ => rfl
  | @joinFree page force after head tail hlocal htail =>
      have hhead : placeHead st.mem st.owner (.localFree page) =
          some head := hlocal
      obtain ⟨rest, before, last, hchain, hlength, hsplit, hwhole⟩ :=
        h.chain_last (.localFree page) rfl hhead
      have hlast : tail = last := by
        rw [IsChain.lastNode_eq (l := head :: rest) ⟨rfl, hchain⟩ hlength,
          hsplit] at htail
        simpa using htail.symm
      subst hlast
      refine ⟨moveAll loc (.localFree page) (.free page),
        h.owner_moveAll (fun _ hpage => hpage) ?_
          (by rw [after.pc_block, howner]; rfl),
        fun block => moveAll_moved block (.toFree page)⟩
      rw [howner] at hwhole
      have hrest : after.pc.rest =
          OwnerPc.rest (.moveLocalFree page force after) := after.pc_rest
      have hcollected : after.pc.collected =
          OwnerPc.collected (.moveLocalFree page force after) :=
        after.pc_collected
      rw [placeHead_owner _ hrest hcollected]
      apply hlists.splice (p := .localFree page) (q := .free page)
        (by simp) hwhole
      · intro r
        cases r <;>
          simp [placeHead, Function.update_apply, FreeMemory.setNext]
      · exact fun _ => rfl
  | @setFlag page delay overrideNever yieldCount after =>
      obtain ⟨hblock, hrest, hcollected⟩ :=
        after.pc_held page delay overrideNever true
      refine ⟨loc, h.owner_same ?_ (by rw [hblock, howner]; rfl),
        fun block => .stay _⟩
      have hrest' : (after.pc page delay overrideNever true).rest =
          OwnerPc.rest (.useExchange page delay overrideNever yieldCount
            (st.mem.xthreadFree page) after) := hrest
      rw [placeHead_setFlag, placeHead_owner st.mem hrest' hcollected]
      exact hlists
  | @takeDelayed heap all block hblock =>
      refine ⟨moveAll loc (.delayed heap) .visiting,
        h.owner_moveAll (fun _ hpage => by cases hpage) ?_ (by rw [howner]; rfl),
        fun other => moveAll_moved other (.take heap all block howner)⟩
      apply hlists.take (p := .delayed heap) (q := .visiting) rfl (by simp)
      · intro r
        cases r with
        | visiting => exact hblock.symm
        | delayed other =>
            simp [placeHead, FreeMemory.setDelayedFree,
              Function.update_apply]
        | collected other => simp [placeHead, OwnerPc.collected]
        | _ => simp [placeHead, FreeMemory.setDelayedFree]
      · exact fun _ => rfl
  | @visit heap all block allFreed =>
      have hrest : placeHead st.mem
          (.visitBlock heap all (some block) allFreed) .visiting =
            some block := rfl
      refine ⟨Function.update loc block none,
        h.owner_visit (by rw [howner]; rfl) (by rw [howner]; rfl) ?_ rfl,
        fun other => update_moved other ?_⟩
      · apply hlists.pop hrest
        · intro r
          cases r <;> simp [placeHead, OwnerPc.rest, OwnerPc.collected,
            AfterUse.rest]
        · intro other
          exact Function.update_apply ..
      · rw [hlists.head_loc hrest]
        exact .visit
  | @freeLocal v pc' used hblock hrest hcollected =>
      have howned : st.owner.block = some v.block := by
        rw [howner]
        rfl
      refine ⟨Function.update loc v.block
          (some (.localFree (sys.pageOf v.block))),
        h.owner_push howned hblock (fun _ hpage => Option.some.inj hpage)
          rfl ?_, fun other => update_moved other ?_⟩
      · intro r
        have hrest' : pc'.rest = OwnerPc.rest (.freeLocal v) := hrest
        have hcollected' : pc'.collected =
            OwnerPc.collected (.freeLocal v) := hcollected
        rw [howner, placeHead_owner _ hrest' hcollected']
        cases r <;>
          simp [placeHead, FreeMemory.setNext, Function.update_apply]
      · rw [(h.owned v.block howned).1]
        exact .freeLocal howned
  | @reinsert v dfree =>
      have howned : st.owner.block = some v.block := by
        rw [howner]
        rfl
      refine ⟨Function.update loc v.block (some (.delayed v.heap)),
        h.owner_push howned rfl (fun _ hpage => by cases hpage) rfl ?_,
        fun other => update_moved other ?_⟩
      · intro r
        rw [howner]
        cases r <;> simp [placeHead, OwnerPc.rest, OwnerPc.collected,
          FreeMemory.setNext, FreeMemory.setDelayedFree,
          Function.update_apply]
      · rw [(h.owned v.block howned).1]
        exact .reinsert v dfree howner rfl

/-- The walks of the owner end within the capacity, so it never gets
stuck. -/
theorem owner_progress (h : Placement sys st loc) (fail : Bool) :
    ownerStep sys.pageOf sys.capacity fail st.mem st.owner ≠ none := by
  cases hpc : st.owner with
  | moveLocalFree page force after =>
      simp only [ownerStep]
      split
      · simp
      · simp
      · next head _ hlocal _ =>
          have hhead : placeHead st.mem st.owner (.localFree page) =
              some head := hlocal
          obtain ⟨rest, before, last, hchain, hlength, hsplit, -⟩ :=
            h.chain_last (.localFree page) rfl hhead
          have hwhole : IsChain st.mem.next (some head) (head :: rest) :=
            ⟨rfl, hchain⟩
          have hwalk := hwhole.lastNode_eq hlength
          rw [hsplit, List.getLast?_append_of_ne_nil _ (by simp)] at hwalk
          rw [hwalk]
          split <;> simp
  | visitBlock heap all block allFreed =>
      cases block <;> simp [ownerStep]
  | _ =>
      simp only [ownerStep]
      repeat' split
      all_goals simp

theorem call (h : Placement sys st loc) (call : OwnerCall)
    (calls : List OwnerCall) (hidle : st.owner = .idle) :
    Placement sys
      { st with
        mem := (call.begin st.mem).2
        owner := (call.begin st.mem).1
        calls := calls } loc := by
  obtain ⟨hblock, hhead, hnext⟩ :
      (call.begin st.mem).1.block = none ∧
        placeHead (call.begin st.mem).2 (call.begin st.mem).1 =
          placeHead st.mem .idle ∧
        (call.begin st.mem).2.next = st.mem.next := by
    cases call <;> exact ⟨rfl, rfl, rfl⟩
  have hlists := h.lists
  rw [hidle, ← hhead, ← hnext] at hlists
  have hsame := h.owner_same hlists (by rw [hblock, hidle]; rfl)
  exact ⟨hsame.lists, hsame.carved, hsame.onPage, hsame.held, hsame.placed,
    hsame.owned⟩

end Owner

theorem step [DecidableEq ι] {st' : FreeState ι} (h : Placement sys st loc)
    (hheap : ∀ i, (st.pc i).Inside → st.mem.xheap (sys.page i) ≠ none)
    (hstep : FreeStep sys st st') :
    ∃ loc', Placement sys st' loc' ∧
      ∀ block, Moved sys st block (loc block) (loc' block) := by
  cases hstep with
  | thread i fail =>
      exact h.thread
        (freeStep_move (sys.page i) (sys.block i) fail st.mem (st.pc i))
        (hheap i)
  | owner fail hstep => exact h.owner (ownerStep_move hstep)
  | call hidle hcalls =>
      exact ⟨loc, h.call _ _ hidle, fun block => .stay _⟩

end Placement

end Palloc
