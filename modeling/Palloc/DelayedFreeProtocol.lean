import Palloc.DelayedFreeHomes
import Mathlib.Logic.Relation

/-!
# The delayed-free protocol

Threads free distinct blocks while the owner collects, drains delayed lists
and changes flags.  Along every run each of these blocks is in exactly one
spot, at most one thread at a time keeps a page in the `DELAYED_FREEING`
state, and a block leaves a list only into the hands of the owner.

An owner call with `override_never` replaces `NEVER_DELAYED_FREE` on purpose;
it is the only step that does.
-/

namespace Palloc

open LinkedChain SharedStacks

inductive Spot (ι : Type*) where
  | held (i : ι)
  | threadFree (page : ℕ)
  | delayed (heap : ℕ)
  | processing
  | localFree (page : ℕ)
  | free (page : ℕ)
  deriving DecidableEq

def Spot.page {ι : Type*} : Spot ι → Option ℕ
  | .threadFree page | .localFree page | .free page => some page
  | _ => none

def FreeMemory.OnList (mem : FreeMemory) (head : Option Addr)
    (block : Addr) : Prop :=
  ∃ l, IsChain mem.next head l ∧ block ∈ l

/-- The block is in the spot: held by its thread, on one of the lists, or
with the owner (the block it frees, a list it has taken over). -/
def FreeState.At {ι : Type*} (sys : FreeSystem ι) (st : FreeState ι)
    (block : Addr) : Spot ι → Prop
  | .held i => sys.block i = block ∧ (st.pc i).Holds
  | .threadFree page => st.mem.OnList (st.mem.xthreadFree page).block block
  | .delayed heap => st.mem.OnList (st.mem.threadDelayedFree heap) block
  | .processing =>
      st.owner.block = some block ∨ st.mem.OnList st.owner.rest block ∨
        ∃ page head, st.owner.collected = some (page, head) ∧
          st.mem.OnList (some head) block
  | .localFree page => st.mem.OnList (st.mem.localFree page) block
  | .free page => st.mem.OnList (st.mem.free page) block

/-- How one step may move the block of thread `i`. -/
inductive Spot.Next {ι : Type*} (sys : FreeSystem ι) (i : ι) :
    Spot ι → Spot ι → Prop where
  | stay (spot : Spot ι) : Next sys i spot spot
  | pushThread : Next sys i (.held i) (.threadFree (sys.page i))
  | pushDelayed (heap : ℕ) : Next sys i (.held i) (.delayed heap)
  | collect (page : ℕ) : Next sys i (.threadFree page) .processing
  | take (heap : ℕ) : Next sys i (.delayed heap) .processing
  | giveBack (page : ℕ) : Next sys i .processing (.localFree page)
  | reinsert (heap : ℕ) : Next sys i .processing (.delayed heap)
  | toFree (page : ℕ) : Next sys i (.localFree page) (.free page)

def Place.spot {ι : Type*} : Place → Spot ι
  | .thread page => .threadFree page
  | .delayed heap => .delayed heap
  | .localFree page => .localFree page
  | .free page => .free page
  | .collected _ | .visiting => .processing

/-- The spot of the block of thread `i`. -/
def FreeState.spot {ι : Type*} (sys : FreeSystem ι) (st : FreeState ι)
    (loc : Addr → Option Place) (i : ι) : Spot ι :=
  match loc (sys.block i) with
  | some place => place.spot
  | none =>
      if st.owner.block = some (sys.block i) then .processing else .held i

namespace Placement

variable {ι : Type*} {sys : FreeSystem ι} {st : FreeState ι}
  {loc : Addr → Option Place}

theorem onList_iff (h : Placement sys st loc) (place : Place) (block : Addr) :
    st.mem.OnList (placeHead st.mem st.owner place) block ↔
      loc block = some place :=
  h.lists.loc_iff.symm

theorem processing_iff (h : Placement sys st loc) (block : Addr) :
    st.At sys block .processing ↔
      st.owner.block = some block ∨ loc block = some .visiting ∨
        ∃ page, loc block = some (.collected page) := by
  unfold FreeState.At
  apply or_congr Iff.rfl
  apply or_congr (h.onList_iff .visiting block)
  constructor
  · rintro ⟨page, head, hcollected, hlist⟩
    refine ⟨page, (h.onList_iff (.collected page) block).mp ?_⟩
    have hhead : placeHead st.mem st.owner (.collected page) =
        some head := by
      simp [placeHead, hcollected]
    rw [hhead]
    exact hlist
  · rintro ⟨page, hloc⟩
    have hlist := (h.onList_iff (.collected page) block).mpr hloc
    cases hcollected : st.owner.collected with
    | none =>
        obtain ⟨l, hchain, hmem⟩ := hlist
        simp only [placeHead, hcollected, Option.bind_none] at hchain
        rw [hchain.eq_nil] at hmem
        cases hmem
    | some taken =>
        obtain ⟨other, head⟩ := taken
        refine ⟨other, head, rfl, ?_⟩
        simp only [placeHead, hcollected, Option.bind_some] at hlist
        split at hlist
        · exact hlist
        · obtain ⟨l, hchain, hmem⟩ := hlist
          rw [hchain.eq_nil] at hmem
          cases hmem

theorem list_spot_iff (i : ι) (place : Place)
    (hlist : (place.spot : Spot ι) ≠ .processing) :
    loc (sys.block i) = some place ↔ place.spot = st.spot sys loc i := by
  unfold FreeState.spot
  cases loc (sys.block i) with
  | some other => cases place <;> cases other <;> simp_all [Place.spot, eq_comm]
  | none =>
      by_cases howner : st.owner.block = some (sys.block i)
      · simp [howner, hlist]
      · cases place <;> simp [howner, Place.spot]

theorem at_iff (h : Placement sys st loc) (i : ι) (spot : Spot ι) :
    st.At sys (sys.block i) spot ↔ spot = st.spot sys loc i := by
  have howned := h.owned (sys.block i)
  unfold FreeState.spot
  cases spot with
  | held j =>
      constructor
      · rintro ⟨hblock, hholds⟩
        have hsame : j = i := sys.block_injective hblock
        subst hsame
        obtain ⟨hloc, howner⟩ := h.held j hholds
        simp [hloc, howner]
      · intro hspot
        have hplaced := h.placed i
        cases hloc : loc (sys.block i) with
        | some place =>
            rw [hloc] at hspot
            cases place <;> cases hspot
        | none =>
            rw [hloc] at hspot hplaced
            by_cases howner : st.owner.block = some (sys.block i)
            · simp [howner] at hspot
            · simp only [howner, if_false] at hspot
              cases hspot
              refine ⟨rfl, ?_⟩
              by_contra hnot
              rcases hplaced hnot with hne | heq
              · exact hne rfl
              · exact howner heq
  | processing =>
      rw [h.processing_iff]
      cases hloc : loc (sys.block i) with
      | some place =>
          have hnot : st.owner.block ≠ some (sys.block i) := by
            intro howner
            rw [(howned howner).1] at hloc
            cases hloc
          cases place <;> simp [hnot, Place.spot]
      | none =>
          by_cases howner : st.owner.block = some (sys.block i)
          · simp [howner]
          · simp [howner]
  | threadFree page =>
      exact (h.onList_iff (.thread page) _).trans
        (list_spot_iff i (.thread page) nofun)
  | delayed heap =>
      exact (h.onList_iff (.delayed heap) _).trans
        (list_spot_iff i (.delayed heap) nofun)
  | localFree page =>
      exact (h.onList_iff (.localFree page) _).trans
        (list_spot_iff i (.localFree page) nofun)
  | free page =>
      exact (h.onList_iff (.free page) _).trans
        (list_spot_iff i (.free page) nofun)

theorem exists_unique_spot (h : Placement sys st loc) (i : ι) :
    ∃! spot, st.At sys (sys.block i) spot := by
  refine ⟨st.spot sys loc i, (h.at_iff i _).mpr rfl, ?_⟩
  intro spot hspot
  exact (h.at_iff i spot).mp hspot

theorem spot_page (h : Placement sys st loc) {i : ι} {spot : Spot ι}
    {page : ℕ} (hat : st.At sys (sys.block i) spot)
    (hpage : spot.page = some page) : page = sys.page i := by
  rw [(h.at_iff i spot).mp hat] at hpage
  unfold FreeState.spot at hpage
  split at hpage
  · next place hloc =>
      cases place with
      | delayed heap => cases hpage
      | collected other => cases hpage
      | visiting => cases hpage
      | thread other =>
          cases hpage
          exact (h.onPage _ _ page hloc rfl).symm
      | localFree other =>
          cases hpage
          exact (h.onPage _ _ page hloc rfl).symm
      | free other =>
          cases hpage
          exact (h.onPage _ _ page hloc rfl).symm
  · split at hpage <;> cases hpage

end Placement

/-! ## Steps -/

theorem FreeMove.holds {page : ℕ} {block : Addr} {mem mem' : FreeMemory}
    {pc pc' : FreePc} (h : FreeMove page block mem pc pc' mem')
    (hholds : pc'.Holds) : pc.Holds := by
  cases h with
  | quiet _ _ hsame => exact hsame.mp hholds
  | claim _ _ hheld => exact hheld
  | pushThread _ hheld => exact hheld
  | pushDelayed => exact hholds.elim
  | noHeap => trivial
  | reset => exact hholds.elim

/-- Only an exchange with `override_never` replaces the never flag. -/
theorem OwnerMove.never {pageOf : Addr → ℕ} {capacity : ℕ → ℕ}
    {mem mem' : FreeMemory} {pc pc' : OwnerPc} {page : ℕ}
    (h : OwnerMove pageOf capacity mem pc pc' mem') (hguarded : pc.Guarded)
    (hnever : mem.flag page = .neverDelayedFree) :
    mem'.flag page = .neverDelayedFree ∨
      ∃ delay yieldCount tfree after,
        pc = .useExchange page delay true yieldCount tfree after := by
  cases h with
  | quiet hmem =>
      rcases hmem with rfl | ⟨block, target, -, rfl⟩ <;> exact .inl hnever
  | @collect other =>
      refine .inl ?_
      rw [FreeMemory.flag_setThreadFree]
      exact (congrFun (Function.update_eq_self other mem.flag) page).trans
        hnever
  | append =>
      refine .inl ?_
      simp only
      split <;> exact hnever
  | moveFree => exact .inl hnever
  | joinFree => exact .inl hnever
  | @setFlag other delay overrideNever yieldCount after =>
      by_cases hpage : page = other
      · subst hpage
        cases overrideNever with
        | true => exact .inr ⟨delay, yieldCount, _, after, rfl⟩
        | false => exact absurd hnever (hguarded.2 rfl)
      · refine .inl ?_
        rw [FreeMemory.flag_setThreadFree, Function.update_of_ne hpage]
        exact hnever
  | takeDelayed => exact .inl hnever
  | visit => exact .inl hnever
  | freeLocal => exact .inl hnever
  | reinsert => exact .inl hnever

section Step

variable {ι : Type*} [DecidableEq ι] {sys : FreeSystem ι}
  {st st' : FreeState ι}

theorem FreeStep.holds (hstep : FreeStep sys st st') {i : ι}
    (hholds : (st'.pc i).Holds) : (st.pc i).Holds := by
  cases hstep with
  | thread j fail =>
      by_cases hj : i = j
      · subst hj
        have hmove :=
          freeStep_move (sys.page i) (sys.block i) fail st.mem (st.pc i)
        apply hmove.holds
        simpa using hholds
      · simpa [hj] using hholds
  | owner => exact hholds
  | call => exact hholds

theorem FreeStep.never (hstep : FreeStep sys st st')
    (h : FlagInvariant sys st) {page : ℕ}
    (hnever : st.mem.flag page = .neverDelayedFree) :
    st'.mem.flag page = .neverDelayedFree ∨
      ∃ delay yieldCount tfree after,
        st.owner = .useExchange page delay true yieldCount tfree after := by
  cases hstep with
  | thread i fail =>
      refine .inl ?_
      have hmove :=
        freeStep_move (sys.page i) (sys.block i) fail st.mem (st.pc i)
      show (freeStep (sys.page i) (sys.block i) fail st.mem
        (st.pc i)).2.flag page = _
      rcases hmove.flag with ⟨-, hflag⟩ | ⟨-, -, huse, hflag⟩ |
        ⟨hinside, -, hflag⟩
      · rw [hflag]
        exact hnever
      · have hpage : page ≠ sys.page i := by
          rintro rfl
          rw [huse] at hnever
          cases hnever
        rw [hflag, Function.update_of_ne hpage]
        exact hnever
      · have hpage : page ≠ sys.page i := by
          rintro rfl
          rw [h.inside i hinside] at hnever
          cases hnever
        rw [hflag, Function.update_of_ne hpage]
        exact hnever
  | owner fail hstep => exact (ownerStep_move hstep).never h.guarded hnever
  | call hidle hcalls =>
      rename_i call calls
      refine .inl ?_
      show ((call.begin st.mem).2.xthreadFree page).delayed = _
      rw [(call.begin_frame st.mem).2]
      exact hnever

/-- A block moves from spot to spot. -/
theorem FreeStep.spot_next (hstep : FreeStep sys st st')
    {loc loc' : Addr → Option Place} (h : Placement sys st loc)
    (h' : Placement sys st' loc') {i : ι}
    (hmoved : Moved sys st (sys.block i) (loc (sys.block i))
      (loc' (sys.block i))) :
    Spot.Next sys i (st.spot sys loc i) (st'.spot sys loc' i) := by
  -- a block that its thread no longer holds never comes back to it
  have hgone : (st.spot sys loc i) ≠ .held i →
      loc' (sys.block i) = none → st'.spot sys loc' i = .processing := by
    intro hspot hnone
    have hnot : ¬ (st.pc i).Holds := by
      intro hholds
      apply hspot
      obtain ⟨hprivate, hfree⟩ := h.held i hholds
      simp [FreeState.spot, hprivate, hfree]
    rcases h'.placed i (mt hstep.holds hnot) with hplaced | howner
    · exact absurd hnone hplaced
    · simp [FreeState.spot, hnone, howner]
  generalize hloc : loc (sys.block i) = place at hmoved
  generalize hloc' : loc' (sys.block i) = place' at hmoved
  cases hmoved with
  | stay =>
      cases place with
      | some place =>
          have hsame : st'.spot sys loc' i = st.spot sys loc i := by
            simp [FreeState.spot, hloc, hloc']
          rw [hsame]
          exact .stay _
      | none =>
          by_cases howner : st.owner.block = some (sys.block i)
          · have hspot : st.spot sys loc i = .processing := by
              simp [FreeState.spot, hloc, howner]
            rw [hgone (by rw [hspot]; nofun) hloc', hspot]
            exact .stay _
          · have howner' : st'.owner.block ≠ some (sys.block i) := by
              intro htaken
              rcases hstep.takes htaken with hsame | hrest
              · exact howner hsame
              · have hvisiting : placeHead st.mem st.owner .visiting =
                    some (sys.block i) := hrest
                rw [h.lists.head_loc hvisiting] at hloc
                cases hloc
            have hspot : st.spot sys loc i = .held i := by
              simp [FreeState.spot, hloc, howner]
            have hspot' : st'.spot sys loc' i = .held i := by
              simp [FreeState.spot, hloc', howner']
            rw [hspot, hspot']
            exact .stay _
  | pushThread j hblock hholds =>
      have hsame : j = i := sys.block_injective hblock
      subst hsame
      simp only [FreeState.spot, hloc, hloc', (h.held j hholds).2, if_false]
      exact .pushThread
  | pushDelayed j heap hblock hholds =>
      have hsame : j = i := sys.block_injective hblock
      subst hsame
      simp only [FreeState.spot, hloc, hloc', (h.held j hholds).2, if_false]
      exact .pushDelayed heap
  | collect page =>
      simp only [FreeState.spot, hloc, hloc']
      exact .collect page
  | append page =>
      simp only [FreeState.spot, hloc, hloc']
      exact .giveBack page
  | toFree page =>
      simp only [FreeState.spot, hloc, hloc']
      exact .toFree page
  | take heap all head howner =>
      simp only [FreeState.spot, hloc, hloc']
      exact .take heap
  | visit =>
      have hspot : st.spot sys loc i = .processing := by
        simp [FreeState.spot, hloc, Place.spot]
      rw [hgone (by rw [hspot]; nofun) hloc', hspot]
      exact .stay _
  | freeLocal howner =>
      simp only [FreeState.spot, hloc, hloc', howner, if_true]
      exact .giveBack _
  | reinsert visit dfree howner hblock =>
      have hprocessing : st.owner.block = some (sys.block i) := by
        rw [howner, ← hblock]
        rfl
      simp only [FreeState.spot, hloc, hloc', hprocessing, if_true]
      exact .reinsert _

end Step

/-! ## Runs -/

section Runs

variable {ι : Type*} [DecidableEq ι] {sys : FreeSystem ι}
  {start st : FreeState ι}

/-- While no heap is stored, the home of a block is the heap of its page. -/
theorem DelayedFreeStart.run (hstart : DelayedFreeStart sys start)
    (hheap : ∀ i, start.mem.xheap (sys.page i) ≠ none)
    (hcalls : ∀ page heap, OwnerCall.setHeap page heap ∉ start.calls)
    (hrun : Relation.ReflTransGen (FreeStep sys) start st) :
    FreeInvariant sys st
        (fun i heap => start.mem.xheap (sys.page i) = some heap) ∧
      st.mem.xheap = start.mem.xheap ∧
      ∀ page heap, OwnerCall.setHeap page heap ∉ st.calls := by
  induction hrun with
  | refl => exact ⟨hstart.invariant, rfl, hcalls⟩
  | @tail before after _ hstep ih =>
      obtain ⟨hinv, hsame, hnone⟩ := ih
      have hinv' : FreeInvariant sys after
          (fun i heap => start.mem.xheap (sys.page i) = some heap) := by
        apply hinv.step hstep
        · intro i _
          rw [hsame]
          exact hheap i
        · intro i heap _ hload
          rwa [hsame] at hload
        · exact fun _ _ h => h
      refine ⟨hinv', ?_⟩
      rcases hstep.control with ⟨-, hkeep, htail⟩ |
        ⟨-, call, hnext, -, hmem, -⟩
      · rw [hkeep, htail]
        exact ⟨hsame, hnone⟩
      · rw [hnext] at hnone
        constructor
        · rw [hmem, ← hsame]
          cases call with
          | setHeap page heap =>
              exact absurd List.mem_cons_self (hnone page heap)
          | _ => rfl
        · intro page heap hlater
          exact hnone page heap (List.mem_cons_of_mem call hlater)

/-- Every call of the owner other than a change of heaps keeps the protocol:
each block is in exactly one spot, on lists of its own page or of the heap of
its page, and moves only as `Spot.Next` allows; one thread at a time keeps a
page in the `DELAYED_FREEING` state; only `override_never` replaces the never
flag; and the owner never gets stuck. -/
theorem delayed_free_protocol (hstart : DelayedFreeStart sys start)
    (hheap : ∀ i, start.mem.xheap (sys.page i) ≠ none)
    (hcalls : ∀ page heap, OwnerCall.setHeap page heap ∉ start.calls)
    (hrun : Relation.ReflTransGen (FreeStep sys) start st) :
    (∀ i, ∃! spot, st.At sys (sys.block i) spot) ∧
      (∀ i spot, st.At sys (sys.block i) spot →
        (∀ page, spot.page = some page → page = sys.page i) ∧
        ∀ heap, spot = .delayed heap →
          start.mem.xheap (sys.page i) = some heap) ∧
      (∀ i j, (st.pc i).Inside → (st.pc j).Inside →
        sys.page i = sys.page j → i = j) ∧
      (∀ fail, ownerStep sys.pageOf sys.capacity fail st.mem st.owner ≠
        none) ∧
      ∀ st', FreeStep sys st st' →
        (∀ i spot spot', st.At sys (sys.block i) spot →
          st'.At sys (sys.block i) spot' → Spot.Next sys i spot spot') ∧
        ∀ page, st.mem.flag page = .neverDelayedFree →
          st'.mem.flag page = .neverDelayedFree ∨
            ∃ delay yieldCount tfree after,
              st.owner =
                .useExchange page delay true yieldCount tfree after := by
  obtain ⟨hinv, hsame, -⟩ := hstart.run hheap hcalls hrun
  obtain ⟨loc, hplace, hhome⟩ := hinv.lists
  refine ⟨hplace.exists_unique_spot, ?_, hinv.flags.unique,
    hplace.owner_progress, ?_⟩
  · intro i spot hat
    refine ⟨fun page hpage => hplace.spot_page hat hpage, ?_⟩
    rintro heap rfl
    exact hhome.list i heap
      ((hplace.onList_iff (.delayed heap) (sys.block i)).mp hat)
  · intro st' hstep
    have hready : ∀ i, (st.pc i).Inside →
        st.mem.xheap (sys.page i) ≠ none := by
      intro i _
      rw [hsame]
      exact hheap i
    obtain ⟨loc', hplace', hmoved⟩ := hplace.step hready hstep
    constructor
    · intro i spot spot' hat hat'
      rw [(hplace.at_iff i spot).mp hat, (hplace'.at_iff i spot').mp hat']
      exact hstep.spot_next hplace hplace' (hmoved (sys.block i))
    · intro page hnever
      exact hstep.never hinv.flags hnever

end Runs

/-! ## Two threads that free blocks of one page -/

/-- Pages of ten blocks; thread 0 frees the second block of page 0 and
thread 1 its third block. -/
def twoFreers : FreeSystem (Fin 2) where
  block i := 100 * (i.val + 1)
  pageOf block := block / 1000
  capacity _ := 10
  carved page := (List.range 10).map fun k => 1000 * page + 100 * k
  block_injective := by
    intro i j hij
    have hval : 100 * (i.val + 1) = 100 * (j.val + 1) := hij
    exact Fin.ext (by omega)
  block_carved := by decide
  pageOf_carved := by
    intro page block hblock
    obtain ⟨(k : ℕ), hk, rfl⟩ := List.mem_map.mp hblock
    have hlt : k < 10 := List.mem_range.mp hk
    show (1000 * page + 100 * k) / 1000 = page
    omega
  length_carved := by simp

/-- All lists are empty and every page belongs to heap 0. -/
def fullPagesState (calls : List OwnerCall) : FreeState (Fin 2) where
  mem :=
    { xthreadFree := fun _ => ⟨none, .useDelayedFree⟩
      xheap := fun _ => some 0
      threadDelayedFree := fun _ => none
      next := fun _ => none
      free := fun _ => none
      localFree := fun _ => none
      used := fun _ => 10 }
  pc := fun _ => .load
  owner := .idle
  calls := calls

theorem fullPagesState_start (calls : List OwnerCall) :
    DelayedFreeStart twoFreers (fullPagesState calls) := by
  constructor
  · exact fun _ => rfl
  · rfl
  · exact fun _ => nofun
  · refine ⟨fun _ => none, ?_, nofun, nofun, fun _ _ => ⟨rfl, nofun⟩, ?_,
      nofun⟩
    · intro place
      refine ⟨[], ?_, by simp⟩
      cases place <;> rfl
    · exact fun _ hnot => absurd trivial hnot

/-- Thread 0 has set the flag and read the heap while thread 1 only loaded the
word. -/
theorem delayed_free_protocol_fullPagesState :
    ∃ st, Relation.ReflTransGen (FreeStep twoFreers)
        (fullPagesState [.delayedFreePartial 0]) st ∧
      st.pc 0 = .loadDelayed 0 ∧
      st.pc 1 = .exchange ⟨none, .useDelayedFree⟩ ∧
      ∃! spot, st.At twoFreers (twoFreers.block 0) spot := by
  have hrun := (((Relation.ReflTransGen.single
    (@FreeStep.thread (Fin 2) _ twoFreers
      (fullPagesState [.delayedFreePartial 0]) 0 false)).tail
    (.thread _ 1 false)).tail (.thread _ 0 false)).tail (.thread _ 0 false)
  refine ⟨_, hrun, by decide, by decide, ?_⟩
  have hcalls : ∀ page heap, OwnerCall.setHeap page heap ∉
      (fullPagesState [.delayedFreePartial 0]).calls := by
    intro page heap hmem
    cases List.mem_singleton.mp hmem
  exact (delayed_free_protocol (fullPagesState_start _) (fun _ => nofun)
    hcalls hrun).1 0

/-- The owner itself may replace the never flag: two calls of
`_pa_page_try_use_delayed_free`, the second with `override_never`. -/
theorem never_flag_overridden :
    ¬ ∀ start st st' : FreeState (Fin 2),
      DelayedFreeStart twoFreers start →
      (∀ i, start.mem.xheap (twoFreers.page i) ≠ none) →
      (∀ page heap, OwnerCall.setHeap page heap ∉ start.calls) →
      Relation.ReflTransGen (FreeStep twoFreers) start st →
      FreeStep twoFreers st st' → ∀ page,
        st.mem.flag page = .neverDelayedFree →
          st'.mem.flag page = .neverDelayedFree := by
  intro hkept
  have hcall := @FreeStep.call (Fin 2) _ twoFreers
    (fullPagesState [.tryUseDelayedFree 0 requestNever false,
      .tryUseDelayedFree 0 requestUse true]) _ _ rfl rfl
  have hrun := ((((Relation.ReflTransGen.single hcall).tail
    (.owner _ false rfl)).tail (.owner _ false rfl)).tail
    (.call _ rfl rfl)).tail (.owner _ false rfl)
  have hcalls : ∀ page heap, OwnerCall.setHeap page heap ∉
      (fullPagesState [.tryUseDelayedFree 0 requestNever false,
        .tryUseDelayedFree 0 requestUse true]).calls := by
    intro page heap hmem
    simp [fullPagesState] at hmem
  have hflag := hkept _ _ _ (fullPagesState_start _) (fun _ => nofun) hcalls
    hrun (.owner _ false rfl) 0 rfl
  cases hflag

end Palloc
