import Palloc.PageFreeLists

/-!
# Collecting a thread-free list of any shape

Other threads write the links of the list that hangs off `xthread_free`, so a
wrong free can make it longer than the page or run in a circle.  The loop of
`_pa_page_thread_free_collect` looks for the tail and counts at the same time,
and gives up once the count exceeds `capacity`.
-/

namespace Palloc

open LinkedChain

/-- The loop of `_pa_page_thread_free_collect`: the tail and the count.
`none` when the fuel runs out. -/
def findTail (links : Addr → Option Addr) (maxCount : ℕ) :
    (fuel : ℕ) → (tail : Addr) → (count : ℕ) → Option (Addr × ℕ)
  | 0, _, _ => none
  | fuel + 1, tail, count =>
      match links tail with
      | none => some (tail, count)
      | some next =>
          if count ≤ maxCount then
            findTail links maxCount fuel next (count + 1)
          else some (tail, count)

/-- `_pa_page_thread_free_collect`.  The list is taken off `xthread_free`
before it is walked; `used` has 16 bits. -/
def threadFreeCollect (fuel : ℕ) (page : PageFields) : Option PageFields :=
  let page' :=
    { page with xthreadFree := { page.xthreadFree with block := none } }
  match page.xthreadFree.block with
  | none => some page'
  | some head =>
      match findTail page.links page.capacity fuel head 1 with
      | none => none
      | some (tail, count) =>
          if page.capacity < count then some page'
          else
            some
              { page'.blockSetNext tail page.localFree with
                localFree := some head
                used := (page.used + 65536 - count % 65536) % 65536 }

/-! ## The walk -/

variable {links : Addr → Option Addr} {tail : Addr}

theorem findTail_eq {maxCount fuel count : ℕ} (hcount : count ≤ maxCount + 1)
    (hfuel : maxCount + 1 < fuel + count) :
    findTail links maxCount fuel tail count =
      some (collectTail links (maxCount + 1 - count) tail count) := by
  induction fuel generalizing tail count with
  | zero => omega
  | succ fuel ih =>
      unfold findTail
      by_cases hguard : count ≤ maxCount
      · have hsucc : maxCount + 1 - count =
            maxCount + 1 - (count + 1) + 1 := by omega
        rw [hsucc, collectTail]
        cases links tail with
        | none => rfl
        | some next =>
            simp only [hguard, if_true]
            exact ih (by omega) (by omega)
      · have hlast : maxCount + 1 - count = 0 := by omega
        rw [hlast, collectTail]
        cases links tail with
        | none => rfl
        | some next => simp only [hguard, if_false]

theorem threadFreeCollect_eq {page : PageFields} {fuel : ℕ}
    (hfuel : page.capacity < fuel) :
    threadFreeCollect fuel page = some (pageThreadFreeCollect page) := by
  unfold threadFreeCollect pageThreadFreeCollect
  cases page.xthreadFree.block with
  | none => rfl
  | some head =>
      have hwalk := @findTail_eq page.links head page.capacity fuel 1
        (by omega) (by omega)
      rw [Nat.add_sub_cancel] at hwalk
      simp only [hwalk]
      exact (apply_ite some _ _ _).symm

theorem collectTail_long (remaining count : ℕ)
    (hlong : ∀ rest, IsChain links (links tail) rest →
      remaining ≤ rest.length) :
    (collectTail links remaining tail count).2 = count + remaining := by
  induction remaining generalizing tail count with
  | zero => rfl
  | succ remaining ih =>
      unfold collectTail
      cases hnext : links tail with
      | none =>
          have hnil := hlong [] hnext
          simp at hnil
      | some next =>
          have hrest := @ih next (count + 1) (by
            intro rest hchain
            have hle := hlong (next :: rest) ⟨hnext, hchain⟩
            simpa using hle)
          rw [hrest]
          omega

/-! ## The page afterwards -/

structure BlocksCollected (page page' : PageFields) (blocks : List Addr) :
    Prop where
  /-- The blocks are linked in their order, the last one to what was the
  first local free block. -/
  prepended : ChainTo page'.links page.localFree page'.localFree blocks
  links_eq : ∀ addr, some addr ≠ blocks.getLast? →
    page'.links addr = page.links addr
  localFree : ∀ localFree, IsChain page.links page.localFree localFree →
    (∀ block ∈ blocks, block ∉ localFree) →
      IsChain page'.links page'.localFree (blocks ++ localFree)
  used_eq : (page'.used + blocks.length) % 65536 = page.used
  used_le : blocks.length ≤ page.used →
    page'.used + blocks.length = page.used

/-- What stays, apart from the links: everything but the list head, the local
free list and the used count. -/
def SameRest (page page' : PageFields) : Prop :=
  page' =
    { page with
      links := page'.links
      localFree := page'.localFree
      used := page'.used
      xthreadFree := ⟨none, page.xthreadFree.delayed⟩ }

theorem pageThreadFreeCollect_rest (page : PageFields) :
    SameRest page (pageThreadFreeCollect page) := by
  unfold pageThreadFreeCollect SameRest
  cases page.xthreadFree.block with
  | none => rfl
  | some head =>
      dsimp only
      split <;> rfl

theorem pageThreadFreeCollect_blocks {page : PageFields} {blocks : List Addr}
    (hused : page.used < 65536) (hcapacity : page.capacity < 65536)
    (hchain : IsChain page.links page.xthreadFree.block blocks)
    (hlength : blocks.length ≤ page.capacity) :
    BlocksCollected page (pageThreadFreeCollect page) blocks := by
  cases blocks with
  | nil =>
      have hnone : page.xthreadFree.block = none := hchain
      simp only [pageThreadFreeCollect, hnone]
      exact
        { prepended := rfl
          links_eq := fun _ _ => rfl
          localFree := fun _ hlocal _ => hlocal
          used_eq := Nat.mod_eq_of_lt hused
          used_le := fun _ => rfl }
  | cons head rest =>
      obtain ⟨hhead, hrest⟩ := hchain
      simp only [List.length_cons] at hlength
      have hwalk := collectTail_spec page.capacity 1 hrest (by omega)
      have hshort : ¬ page.capacity < 1 + rest.length := by omega
      simp only [pageThreadFreeCollect, hhead, hwalk, hshort, if_false]
      set last := (head :: rest).getLast (by simp) with hlast
      have hsplit : head :: rest = (head :: rest).dropLast ++ [last] :=
        (List.dropLast_append_getLast (by simp)).symm
      have hlist : IsChain page.links (some head)
          ((head :: rest).dropLast ++ [last]) := by
        rw [← hsplit]
        exact ⟨rfl, hrest⟩
      have hmod : (1 + rest.length) % 65536 = 1 + rest.length :=
        Nat.mod_eq_of_lt (by omega)
      exact
        { prepended := by
            rw [hsplit]
            exact hlist.redirect page.localFree
          links_eq := by
            intro addr haddr
            apply Function.update_of_ne
            rintro rfl
            exact haddr (List.getLast?_eq_some_getLast (by simp)).symm
          localFree := by
            intro localFree hlocal hdisjoint
            rw [hsplit, List.append_assoc]
            exact hlist.splice hlocal
              (hdisjoint last (List.getLast_mem (by simp)))
          used_eq := by
            simp only [hmod, List.length_cons]
            omega
          used_le := by
            intro hle
            simp only [hmod, List.length_cons] at hle ⊢
            omega }

theorem pageThreadFreeCollect_long {page : PageFields}
    (hlong : ∀ blocks, IsChain page.links page.xthreadFree.block blocks →
      page.capacity < blocks.length) :
    (pageThreadFreeCollect page).used = page.used ∧
      (pageThreadFreeCollect page).localFree = page.localFree ∧
        (pageThreadFreeCollect page).links = page.links := by
  unfold pageThreadFreeCollect
  cases hhead : page.xthreadFree.block with
  | none => exact ⟨rfl, rfl, rfl⟩
  | some head =>
      have hcount := @collectTail_long page.links head
        page.capacity 1 (by
          intro rest hrest
          have hlt := hlong (head :: rest) ⟨hhead, hrest⟩
          simp only [List.length_cons] at hlt
          omega)
      have hgive : page.capacity <
          (collectTail page.links page.capacity head 1).2 := by omega
      simp only [hgive, if_true]
      exact ⟨trivial, trivial, trivial⟩

/-- Collecting ends for every content of the list.  A list of at most
`capacity` blocks is prepended to the local free list and counted off; any
other list, a longer or a cyclic one, leaves both as they were.  The delayed
flag stays in either case. -/
theorem thread_free_collect (page : PageFields) (hused : page.used < 65536)
    (hcapacity : page.capacity < 65536) :
    ∃ page', (∀ fuel > page.capacity,
        threadFreeCollect fuel page = some page') ∧
      SameRest page page' ∧
      page'.xthreadFree = ⟨none, page.xthreadFree.delayed⟩ ∧
      (∀ blocks, IsChain page.links page.xthreadFree.block blocks →
        blocks.length ≤ page.capacity → BlocksCollected page page' blocks) ∧
      ((¬ ∃ blocks, IsChain page.links page.xthreadFree.block blocks ∧
          blocks.length ≤ page.capacity) →
        page'.used = page.used ∧ page'.localFree = page.localFree ∧
          page'.links = page.links) := by
  have hrest := pageThreadFreeCollect_rest page
  refine ⟨pageThreadFreeCollect page, fun fuel => threadFreeCollect_eq,
    hrest, congrArg PageFields.xthreadFree hrest, ?_, ?_⟩
  · intro blocks hchain hlength
    exact pageThreadFreeCollect_blocks hused hcapacity hchain hlength
  · intro hnone
    apply pageThreadFreeCollect_long
    intro blocks hchain
    by_contra hle
    exact hnone ⟨blocks, hchain, not_lt.mp hle⟩

/-- A page of two blocks whose thread-free list runs in a circle. -/
def cyclicPage : PageFields :=
  { PageFields.zero with
    capacity := 2
    reserved := 2
    used := 2
    xthreadFree := ⟨some 0, .noDelayedFree⟩
    links := fun addr => if addr = 0 then some 16 else some 0 }

theorem thread_free_collect_cyclicPage :
    (threadFreeCollect 3 cyclicPage).map PageFields.used = some 2 := by
  obtain ⟨page', hrun, -, -, -, hlong⟩ :=
    thread_free_collect cyclicPage (by decide) (by decide)
  have hnone : ∀ blocks addr,
      ¬ IsChain cyclicPage.links (some addr) blocks := by
    intro blocks
    induction blocks with
    | nil =>
        intro addr hchain
        cases hchain
    | cons node rest ih =>
        intro addr hchain
        have hlink : cyclicPage.links node =
            some (if node = 0 then 16 else 0) := by
          unfold cyclicPage
          exact (apply_ite some _ _ _).symm
        rw [isChain_cons, hlink] at hchain
        exact ih _ hchain.2
  obtain ⟨hused, -⟩ := hlong (by
    rintro ⟨blocks, hchain, -⟩
    exact hnone blocks 0 hchain)
  rw [hrun 3 (by decide), Option.map_some, hused]
  rfl

end Palloc
