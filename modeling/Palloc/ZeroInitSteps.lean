import Palloc.ZeroInitInvariant

/-!
# Operations keep the zero bytes zero

An operation changes the layout, so that fewer bytes have to be zero or only
such that are zero, and writes where nothing has to be zero.
-/

namespace Palloc

open ByteMemory

variable {arenas : ℕ → Option ZeroArena} {segments : ℕ → Option ZeroSegment}
variable {pages : ℕ → Option ZeroPage} {st : ZeroHeap} {mem : Mem}
variable {a n id block : ℕ} {page page' : ZeroPage}
variable {seg seg' : ZeroSegment} {arena : ZeroArena}

structure ZeroOk (st : ZeroHeap) : Prop where
  layout : ZeroLayout st.arenas st.segments st.pages
  zero : ∀ a, MustBeZero st.arenas st.segments st.pages a → st.mem a = 0

/-! ## Writes -/

namespace ZeroOk

theorem setMem (h : ZeroOk st)
    (hmem : ∀ a, MustBeZero st.arenas st.segments st.pages a →
      mem a = st.mem a ∨ mem a = 0) : ZeroOk { st with mem := mem } where
  layout := h.layout
  zero := by
    intro a hzero
    rcases hmem a hzero with hsame | hnew
    · exact hsame.trans (h.zero a hzero)
    · exact hnew

theorem writeBlock (h : ZeroOk st) (hpage : st.pages id = some page)
    (hblock : block ∈ page.blocks) (hfree : block ∉ page.free)
    (hmem : ChangesOnly block (block + page.blockSize) st.mem mem) :
    ZeroOk { st with mem := mem } := by
  apply h.setMem
  intro a hzero
  left
  apply hmem
  by_contra hin
  rw [not_or] at hin
  exact h.layout.carved_not_zero hpage hblock (by omega) (by omega)
    (Or.inl hfree) hzero

theorem writeLinks {blocks : List ℕ} (h : ZeroOk st)
    (hpage : st.pages id = some page) (hblocks : ∀ x ∈ blocks, x ∈ page.blocks)
    (hmem : ChangesIn (linkWords blocks) st.mem mem) :
    ZeroOk { st with mem := mem } := by
  apply h.setMem
  intro a hzero
  left
  apply hmem
  intro r hr
  obtain ⟨block, hblock, rfl⟩ := List.mem_map.mp hr
  by_contra hin
  rw [not_or] at hin
  have hsize := (h.layout.page id page hpage).ok.eight_le
  exact h.layout.carved_not_zero hpage (hblocks block hblock) (by omega)
    (by omega) (Or.inr (by omega)) hzero

theorem writeInfo (h : ZeroOk st) (hseg : st.segments n = some seg)
    (hmem : ChangesOnly (pieceStart n) (sliceAt n seg.infoSlices) st.mem
      mem) : ZeroOk { st with mem := mem } := by
  apply h.setMem
  intro a hzero
  left
  apply hmem
  by_contra hin
  rw [not_or] at hin
  exact h.layout.info_not_zero hseg (by omega) (by omega) hzero

end ZeroOk

/-! ## A page changes its lists -/

structure PageKept (page page' : ZeroPage) : Prop where
  same : SameBlocks page.toBlockPage page'.toBlockPage
  zeroInit : page'.isZeroInit = page.isZeroInit
  capacity : page.capacity ≤ page'.capacity
  free : page'.freeIsZero = true → page.freeIsZero = true ∧
    ∀ block ∈ page'.free, block ∈ page.free ∨
      ∃ k, page.capacity ≤ k ∧ k < page'.capacity ∧ block = page.blockAt k

theorem pageSlice_update (hpage : pages id = some page)
    (hsame : page'.segment = page.segment ∧ page'.idx = page.idx ∧
      page'.sliceCount = page.sliceCount) {s : ℕ} :
    PageSlice (Function.update pages id (some page')) n s ↔
      PageSlice pages n s := by
  obtain ⟨hsegment, hidx, hcount⟩ := hsame
  constructor
  · rintro ⟨id', p, hp, hrest⟩
    by_cases hid : id' = id
    · subst hid
      rw [Function.update_self] at hp
      obtain rfl := Option.some.inj hp
      rw [hsegment, hidx, hcount] at hrest
      exact ⟨id', page, hpage, hrest⟩
    · rw [Function.update_of_ne hid] at hp
      exact ⟨id', p, hp, hrest⟩
  · rintro ⟨id', p, hp, hrest⟩
    by_cases hid : id' = id
    · subst hid
      obtain rfl := Option.some.inj (hp.symm.trans hpage)
      refine ⟨id', page', Function.update_self _ _ _, ?_⟩
      rw [hsegment, hidx, hcount]
      exact hrest
    · refine ⟨id', p, ?_, hrest⟩
      rw [Function.update_of_ne hid]
      exact hp

namespace PageKept

theorem slices (h : PageKept page page') : page'.segment = page.segment ∧
    page'.idx = page.idx ∧ page'.sliceCount = page.sliceCount := by
  rw [h.same]
  exact ⟨rfl, rfl, rfl⟩

theorem blockAt_eq (h : PageKept page page') (k : ℕ) :
    page'.blockAt k = page.blockAt k := by
  rw [h.same]
  rfl

theorem blockSize_eq (h : PageKept page page') :
    page'.blockSize = page.blockSize := by
  rw [h.same]

theorem sliceEnd_eq (h : PageKept page page') :
    page'.sliceEnd = page.sliceEnd := by
  rw [h.same]
  rfl

theorem mustBeZero (h : PageKept page page') (hpage : pages id = some page)
    (hok : BlocksOk page) (hok' : BlocksOk page')
    (hzero : MustBeZero arenas segments
      (Function.update pages id (some page')) a) :
    MustBeZero arenas segments pages a := by
  cases hzero with
  | arena arena id' i harena hinit hi hclean hlo hhi =>
      exact .arena arena id' i harena hinit hi hclean hlo hhi
  | slice seg m s hseg hflag hs hs' hfree hlo hhi =>
      rw [pageSlice_update hpage h.slices] at hfree
      exact .slice seg m s hseg hflag hs hs' hfree hlo hhi
  | uncarved p id' hp hflag hlo hhi =>
      by_cases hid : id' = id
      · subst hid
        rw [Function.update_self] at hp
        obtain rfl := Option.some.inj hp
        have hle : page.blockAt page.capacity ≤ page.blockAt page'.capacity :=
          Nat.add_le_add_left (Nat.mul_le_mul_right _ h.capacity) _
        rw [h.zeroInit] at hflag
        rw [h.blockAt_eq] at hlo
        rw [h.sliceEnd_eq] at hhi
        exact .uncarved page id' hpage hflag (hle.trans hlo) hhi
      · rw [Function.update_of_ne hid] at hp
        exact .uncarved p id' hp hflag hlo hhi
  | free p id' block hp hflag hblock hlo hhi =>
      by_cases hid : id' = id
      · subst hid
        rw [Function.update_self] at hp
        obtain rfl := Option.some.inj hp
        obtain ⟨hold, hfree⟩ := h.free hflag
        rw [h.blockSize_eq] at hhi
        rcases hfree block hblock with hmem | ⟨k, hk, hk', rfl⟩
        · exact .free page id' block hpage hold hmem hlo hhi
        · have hreserved : k < page.reserved := by
            have hcap := hok'.capacity
            rw [h.same] at hcap
            exact hk'.trans_le hcap
          have harea := hok.ok.area k hreserved
          have hle : page.blockAt page.capacity ≤ page.blockAt k :=
            Nat.add_le_add_left (Nat.mul_le_mul_right _ hk) _
          exact .uncarved page id' hpage (hok.flag hold) (by omega) (by omega)
      · rw [Function.update_of_ne hid] at hp
        exact .free p id' block hp hflag hblock hlo hhi

theorem layout (h : PageKept page page') (hpage : pages id = some page)
    (hok' : BlocksOk page') (hlayout : ZeroLayout arenas segments pages) :
    ZeroLayout arenas segments (Function.update pages id (some page')) := by
  have hold : ∀ id' p, Function.update pages id (some page') id' = some p →
      ∃ q, pages id' = some q ∧ p.segment = q.segment ∧ p.idx = q.idx ∧
        p.sliceCount = q.sliceCount := by
    intro id' p hp
    by_cases hid : id' = id
    · subst hid
      rw [Function.update_self] at hp
      obtain rfl := Option.some.inj hp
      exact ⟨page, hpage, h.slices⟩
    · rw [Function.update_of_ne hid] at hp
      exact ⟨p, hp, rfl, rfl, rfl⟩
  constructor
  · exact hlayout.dirty
  · exact hlayout.arenas_apart
  · exact hlayout.info
  · exact hlayout.segments_apart
  · exact hlayout.memids_apart
  · exact hlayout.memid_arena
  · exact hlayout.place
  · intro id' p hp
    by_cases hid : id' = id
    · subst hid
      rw [Function.update_self] at hp
      obtain rfl := Option.some.inj hp
      exact hok'
    · rw [Function.update_of_ne hid] at hp
      exact hlayout.page id' p hp
  · intro id' p hp
    obtain ⟨q, hq, hsegment, hidx, hcount⟩ := hold id' p hp
    rw [hsegment, hidx, hcount]
    exact hlayout.page_segment id' q hq
  · intro i j p p' hne hp hp' hsegment
    obtain ⟨q, hq, hsegment', hidx, hcount⟩ := hold i p hp
    obtain ⟨q', hq', hsegment'', hidx', hcount'⟩ := hold j p' hp'
    rw [hidx, hcount, hidx', hcount']
    exact hlayout.pages_apart i j q q' hne hq hq'
      (by rw [← hsegment', ← hsegment'', hsegment])

end PageKept

theorem ZeroOk.setPage (h : ZeroOk st) (hpage : st.pages id = some page)
    (hkept : PageKept page page') (hok' : BlocksOk page') :
    ZeroOk
      { st with pages := Function.update st.pages id (some page') } where
  layout := hkept.layout hpage hok' h.layout
  zero := fun a hzero => h.zero a
    (hkept.mustBeZero hpage (h.layout.page id page hpage) hok' hzero)

/-- Blocks move between the lists of a page. -/
theorem BlocksOk.perm (h : BlocksOk page)
    (hsame : SameBlocks page.toBlockPage page'.toBlockPage)
    (hzeroInit : page'.isZeroInit = page.isZeroInit)
    (hcapacity : page'.capacity = page.capacity)
    (hflag : page'.freeIsZero = true → page.freeIsZero = true)
    (hperm : page'.blocks.Perm page.blocks) : BlocksOk page' := by
  constructor
  · rw [hsame]
    exact ⟨h.ok.slices, h.ok.pos, h.ok.word, h.ok.wordStart, h.ok.large,
      h.ok.area⟩
  · rw [hsame]
    exact h.slices
  · rw [hsame]
    exact h.start
  · rw [hsame, hcapacity]
    exact h.capacity
  · exact hperm.nodup_iff.mpr h.nodup
  · intro block hblock
    rw [hsame, hcapacity]
    exact h.blockAt block (hperm.mem_iff.mp hblock)
  · intro hset
    rw [hzeroInit]
    exact h.flag (hflag hset)

namespace ZeroOk

theorem malloc {b : BlockBuild} {asked : ℕ} {rest : List ℕ} {zero : Bool}
    (h : ZeroOk st) (hpage : st.pages id = some page)
    (hfree : page.free = block :: rest) :
    ZeroOk
      { st with
        mem := finishAlloc b st.mem page.toBlockPage block
          (BlockHeap.requestSize b asked) zero
        pages := Function.update st.pages id (some
          { page with free := rest, live := block :: page.live }) } := by
  have hok := h.layout.page id page hpage
  have hperm : (ZeroPage.blocks
      { page with free := rest, live := block :: page.live }).Perm
      page.blocks := by
    unfold ZeroPage.blocks
    rw [hfree]
    exact List.perm_middle
  have hok' : BlocksOk
      { page with free := rest, live := block :: page.live } :=
    hok.perm rfl rfl rfl (fun hflag => hflag) hperm
  have hkept : PageKept page
      { page with free := rest, live := block :: page.live } := by
    refine ⟨rfl, rfl, le_rfl, fun hflag => ⟨hflag, ?_⟩⟩
    intro x hx
    rw [hfree]
    exact Or.inl (List.mem_cons_of_mem block hx)
  have hnodup := hok.nodup
  unfold ZeroPage.blocks at hnodup
  rw [hfree] at hnodup
  have hnotin : block ∉ rest := by
    intro hmem
    have hcons := (List.nodup_cons.mp hnodup).1
    simp [hmem] at hcons
  apply (h.setPage hpage hkept hok').writeBlock (Function.update_self _ _ _)
    (by simp [ZeroPage.blocks]) hnotin
  exact finishAlloc_changesOnly hok.ok.eight_le

theorem write (h : ZeroOk st) (hpage : st.pages id = some page)
    (hblock : block ∈ page.live)
    (hmem : ChangesOnly block (block + page.blockSize) st.mem mem) :
    ZeroOk { st with mem := mem } := by
  have hnodup := (h.layout.page id page hpage).nodup
  apply h.writeBlock hpage (by simp [ZeroPage.blocks, hblock]) _ hmem
  intro hfree
  unfold ZeroPage.blocks at hnodup
  have hdisj := (List.nodup_append'.mp hnodup).2.2
  exact hdisj (by simp [hfree]) hblock

/-- A block that the program gave up goes to a list other than the free
list. -/
theorem release {localFree threadFree : List ℕ} (h : ZeroOk st)
    (hpage : st.pages id = some page) (hblock : block ∈ page.live)
    (hlists : (localFree ++ threadFree).Perm
      (block :: (page.localFree ++ page.threadFree))) :
    ZeroOk
      { st with
        pages := Function.update st.pages id (some
          { page with
            localFree := localFree
            threadFree := threadFree
            live := page.live.erase block }) } := by
  have hok := h.layout.page id page hpage
  have hperm : (ZeroPage.blocks
      { page with
        localFree := localFree
        threadFree := threadFree
        live := page.live.erase block }).Perm page.blocks := by
    have htail : ((localFree ++ threadFree) ++ page.live.erase block).Perm
        ((page.localFree ++ page.threadFree) ++ page.live) :=
      (hlists.append_right _).trans (List.perm_middle.symm.trans
        ((List.perm_cons_erase hblock).symm.append_left _))
    unfold ZeroPage.blocks
    dsimp only
    simp only [List.append_assoc] at htail ⊢
    exact htail.append_left page.free
  apply h.setPage hpage
  · exact ⟨rfl, rfl, le_rfl, fun hflag => ⟨hflag, fun x hx => Or.inl hx⟩⟩
  · exact hok.perm rfl rfl rfl (fun hflag => hflag) hperm

theorem freeLocal {b : BlockBuild} {link : ℕ} (h : ZeroOk st)
    (hpage : st.pages id = some page) (hblock : block ∈ page.live) :
    ZeroOk
      { st with
        mem := BlockHeap.freedLocal b st.mem page.toBlockPage block link
        pages := Function.update st.pages id (some
          { page with
            localFree := block :: page.localFree
            live := page.live.erase block }) } :=
  (h.write hpage hblock (freedLocal_changesOnly
    (h.layout.page id page hpage).ok.eight_le)).release hpage hblock
    (List.Perm.refl _)

theorem freeMt {link : ℕ} (h : ZeroOk st) (hpage : st.pages id = some page)
    (hblock : block ∈ page.live)
    (hmem : ChangesOnly block (block + page.blockSize) st.mem mem) :
    ZeroOk
      { st with
        mem := store mem block 8 link
        pages := Function.update st.pages id (some
          { page with
            threadFree := block :: page.threadFree
            live := page.live.erase block }) } := by
  have hsize := (h.layout.page id page hpage).ok.eight_le
  have hstore : ChangesOnly block (block + page.blockSize) mem
      (store mem block 8 link) :=
    store_changesOnly.mono le_rfl (by omega)
  exact (h.write hpage hblock (hmem.trans hstore)).release hpage hblock
    List.perm_middle

/-! ## Collecting and carving -/

end ZeroOk

namespace ZeroPage

theorem freeCollect_perm (page : ZeroPage) (force : Bool) :
    (page.freeCollect force).blocks.Perm page.blocks := by
  have hthread : (page.threadFreeCollect).blocks.Perm page.blocks := by
    unfold threadFreeCollect blocks
    dsimp only
    rw [List.append_nil, List.append_assoc page.free page.localFree]
    exact (List.perm_append_comm.append_left page.free).append_right _
  have hlocal : ∀ p : ZeroPage, (if p.localFree ≠ [] then
      if p.free = [] then
        { p with free := p.localFree, localFree := [], freeIsZero := false }
      else if force then
        { p with
          free := p.localFree ++ p.free
          localFree := []
          freeIsZero := false }
      else p
    else p).blocks.Perm p.blocks := by
    intro p
    split
    · split
      · next hfree =>
          unfold blocks
          rw [hfree]
          simp
      · split
        · unfold blocks
          dsimp only
          rw [List.append_nil]
          exact (List.perm_append_comm.append_right _).append_right _
        · exact List.Perm.refl _
    · exact List.Perm.refl _
  unfold freeCollect
  dsimp only
  refine (hlocal _).trans ?_
  split
  · exact hthread
  · exact List.Perm.refl _

/-- Collecting either leaves the free list alone or resets the flag. -/
theorem freeCollect_kept (page : ZeroPage) (force : Bool) :
    SameBlocks page.toBlockPage (page.freeCollect force).toBlockPage ∧
      (page.freeCollect force).isZeroInit = page.isZeroInit ∧
      (page.freeCollect force).capacity = page.capacity ∧
      ((page.freeCollect force).freeIsZero = true →
        page.freeIsZero = true ∧
          (page.freeCollect force).free = page.free) := by
  have hlocal : ∀ p : ZeroPage, p.toBlockPage = page.toBlockPage →
      p.isZeroInit = page.isZeroInit → p.capacity = page.capacity →
      p.free = page.free →
      let p' := if p.localFree ≠ [] then
          if p.free = [] then
            { p with
              free := p.localFree, localFree := [], freeIsZero := false }
          else if force then
            { p with
              free := p.localFree ++ p.free
              localFree := []
              freeIsZero := false }
          else p
        else p
      SameBlocks page.toBlockPage p'.toBlockPage ∧
        p'.isZeroInit = page.isZeroInit ∧ p'.capacity = page.capacity ∧
        (p'.freeIsZero = true →
          page.freeIsZero = true ∧ p'.free = page.free) := by
    intro p hblock hzero hcapacity hfree
    have hkept : SameBlocks page.toBlockPage p.toBlockPage ∧
        p.isZeroInit = page.isZeroInit ∧ p.capacity = page.capacity ∧
        (p.freeIsZero = true →
          page.freeIsZero = true ∧ p.free = page.free) := by
      rw [hblock]
      exact ⟨rfl, hzero, hcapacity, fun hflag => ⟨hflag, hfree⟩⟩
    have hreset : ∀ free localFree : List ℕ,
        SameBlocks page.toBlockPage
            { p.toBlockPage with freeIsZero := false } := by
      intro _ _
      rw [hblock]
      rfl
    dsimp only
    split
    · split
      · exact ⟨hreset [] [], hzero, hcapacity,
          fun hflag => absurd hflag Bool.false_ne_true⟩
      · split
        · exact ⟨hreset [] [], hzero, hcapacity,
            fun hflag => absurd hflag Bool.false_ne_true⟩
        · exact hkept
    · exact hkept
  unfold freeCollect
  apply hlocal
  · split <;> rfl
  · split <;> rfl
  · split <;> rfl
  · split <;> rfl

end ZeroPage

namespace ZeroOk

theorem collect {force : Bool} (h : ZeroOk st)
    (hpage : st.pages id = some page)
    (hmem : ChangesIn (linkWords (page.threadFree ++ page.localFree))
      st.mem mem) :
    ZeroOk
      { st with
        mem := mem
        pages := Function.update st.pages id
          (some (page.freeCollect force)) } := by
  obtain ⟨hsame, hzeroInit, hcapacity, hflag⟩ := page.freeCollect_kept force
  have hok := h.layout.page id page hpage
  have hlinks : ∀ x ∈ page.threadFree ++ page.localFree,
      x ∈ page.blocks := by
    intro x hx
    unfold ZeroPage.blocks
    rcases List.mem_append.mp hx with hthread | hlocal
    · simp [hthread]
    · simp [hlocal]
  apply (h.writeLinks hpage hlinks hmem).setPage hpage
  · refine ⟨hsame, hzeroInit, hcapacity.ge, fun hset => ?_⟩
    obtain ⟨hold, hfree⟩ := hflag hset
    refine ⟨hold, fun x hx => Or.inl ?_⟩
    rw [← hfree]
    exact hx
  · exact hok.perm hsame hzeroInit hcapacity (fun hset => (hflag hset).1)
      (page.freeCollect_perm force)

theorem extend {count : ℕ} {new : List ℕ} (h : ZeroOk st)
    (hpage : st.pages id = some page)
    (hcount : page.capacity + count ≤ page.reserved)
    (hnew : new.Perm ((List.range count).map fun k =>
      page.blockAt (page.capacity + k)))
    (hmem : ChangesIn (linkWords new) st.mem mem) :
    ZeroOk
      { st with
        mem := mem
        pages := Function.update st.pages id
          (some (page.extend new count)) } := by
  have hok := h.layout.page id page hpage
  have hat : ∀ x ∈ new, ∃ k, page.capacity ≤ k ∧
      k < page.capacity + count ∧ x = page.blockAt k := by
    intro x hx
    obtain ⟨k, hk, rfl⟩ := List.mem_map.mp (hnew.mem_iff.mp hx)
    have hlt := List.mem_range.mp hk
    exact ⟨page.capacity + k, by omega, by omega, rfl⟩
  have hinj : ∀ {i j : ℕ}, page.blockAt i = page.blockAt j → i = j := by
    intro i j heq
    by_contra hne
    have hapart := @blockAt_apart page.toBlockPage i j hne
    have hpos := hok.ok.pos
    omega
  have hnodup : new.Nodup := by
    rw [hnew.nodup_iff]
    apply List.Nodup.map
    · intro i j heq
      have hij := hinj heq
      omega
    · exact List.nodup_range
  have hok' : BlocksOk (page.extend new count) := by
    constructor
    · exact hok.ok
    · exact hok.slices
    · exact hok.start
    · exact hcount
    · show ((new ++ page.free) ++ page.localFree ++ page.threadFree ++
        page.live).Nodup
      have hassoc : (new ++ page.free) ++ page.localFree ++ page.threadFree ++
          page.live = new ++ page.blocks := by
        simp [ZeroPage.blocks]
      rw [hassoc, List.nodup_append']
      refine ⟨hnodup, hok.nodup, ?_⟩
      intro x hx hx'
      obtain ⟨k, hk, -, rfl⟩ := hat x hx
      obtain ⟨i, hi, heq⟩ := hok.blockAt _ hx'
      have hik := hinj heq
      omega
    · intro x hx
      have hcases : x ∈ new ∨ x ∈ page.blocks := by
        unfold ZeroPage.extend ZeroPage.blocks at hx
        unfold ZeroPage.blocks
        simp only [List.mem_append] at hx ⊢
        tauto
      rcases hcases with hmem | hmem
      · obtain ⟨k, -, hk, rfl⟩ := hat x hmem
        exact ⟨k, hk, rfl⟩
      · obtain ⟨i, hi, rfl⟩ := hok.blockAt x hmem
        exact ⟨i, hi.trans_le (Nat.le_add_right _ _), rfl⟩
    · exact hok.flag
  have hkept : PageKept page (page.extend new count) := by
    refine ⟨rfl, rfl, Nat.le_add_right _ _, fun hflag => ⟨hflag, ?_⟩⟩
    intro x hx
    rcases List.mem_append.mp hx with hmem | hmem
    · exact Or.inr (hat x hmem)
    · exact Or.inl hmem
  apply (h.setPage hpage hkept hok').writeLinks (Function.update_self _ _ _)
    _ hmem
  intro x hx
  unfold ZeroPage.extend ZeroPage.blocks
  simp [hx]

end ZeroOk

end Palloc
