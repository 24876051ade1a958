import Palloc.GuardedObjects
import Palloc.AlignedContract

/-!
# Guard pages stay paired with their objects

The address of a guard page depends on the block and on the block size of its
page only.  As long as no block size changes, the page that an object was
given is the last OS page of its block, the object and the bytes that its
usable size counts lie in front of it, and freeing the object finds it again.
-/

namespace Palloc

open ByteMemory BlockHeap MachineWord

variable {g : GuardBuild} {st st' : GuardedHeap} {heap' : BlockHeap}
variable {mem mem' : Mem} {noAccess : ℕ → Bool}
variable {id block size objSize addr k usable : ℕ} {page page' : BlockPage}
variable {o new : HeapObject} {guard : Option ℕ}

/-! ## Sizes -/

namespace GuardBuild

theorem osPage_pos (g : GuardBuild) : 0 < g.osPage :=
  Nat.two_pow_pos g.osPageShift

theorem dvd_osPage (g : GuardBuild) : 16 ∣ g.osPage :=
  pow_dvd_pow 2 g.four_le

theorem osPage_le (g : GuardBuild) : g.osPage ≤ 2 ^ 60 :=
  Nat.pow_le_pow_right (by decide) g.le_sixty

end GuardBuild

theorem guardedObjSize_spec (hsize : size < guardedSizeEnd) :
    size ≤ guardedObjSize g size ∧ guardedObjSize g size < size + 16 ∧
      (g.precise = false → 16 ∣ guardedObjSize g size) := by
  have hend : guardedSizeEnd = 2 ^ 63 := rfl
  have hword : wordSize = 2 ^ 64 := rfl
  have halign : wordAlignUp size maxAlignSize =
      exactAlignUp size maxAlignSize :=
    wordAlignUp_of_lt (by unfold maxAlignSize; omega)
  unfold guardedObjSize
  split
  · next hprecise =>
      refine ⟨le_rfl, by omega, ?_⟩
      intro hnot
      rw [hnot] at hprecise
      exact nomatch hprecise
  · rw [halign]
    exact ⟨le_exactAlignUp (by decide), exactAlignUp_lt (by decide),
      fun _ => dvd_exactAlignUp size maxAlignSize⟩

theorem guardedReqSize_room (hsize : size < guardedSizeEnd) :
    guardedObjSize g size + g.osPage + 8 ≤
      guardedReqSize g (guardedObjSize g size) := by
  obtain ⟨-, hlt, -⟩ := @guardedObjSize_spec g size hsize
  have hend : guardedSizeEnd = 2 ^ 63 := rfl
  have hword : wordSize = 2 ^ 64 := rfl
  have hpage := g.osPage_le
  have hpos := g.osPage_pos
  have hunit : maxAlignSize = 16 := rfl
  generalize guardedObjSize g size = obj at hlt ⊢
  have hobj : wordAlignUp obj maxAlignSize = exactAlignUp obj maxAlignSize :=
    wordAlignUp_of_lt (by omega)
  have hle := @le_exactAlignUp obj maxAlignSize (by decide)
  have hobjLt := @exactAlignUp_lt obj maxAlignSize (by decide)
  have hmod : (exactAlignUp obj maxAlignSize + 8) % wordSize =
      exactAlignUp obj maxAlignSize + 8 := Nat.mod_eq_of_lt (by omega)
  have hbsize : wordAlignUp (exactAlignUp obj maxAlignSize + 8) maxAlignSize =
      exactAlignUp (exactAlignUp obj maxAlignSize + 8) maxAlignSize :=
    wordAlignUp_of_lt (by omega)
  unfold guardedReqSize
  dsimp only
  rw [hobj, hmod, hbsize]
  have hble := @le_exactAlignUp (exactAlignUp obj maxAlignSize + 8)
    maxAlignSize (by decide)
  have hblt := @exactAlignUp_lt (exactAlignUp obj maxAlignSize + 8)
    maxAlignSize (by decide)
  generalize exactAlignUp (exactAlignUp obj maxAlignSize + 8) maxAlignSize =
    bsize at hble hblt ⊢
  rw [Nat.mod_eq_of_lt (by omega : bsize + g.osPage < wordSize),
    wordAlignUp_of_lt (by omega)]
  have hreq := @le_exactAlignUp (bsize + g.osPage) g.osPage hpos
  omega

/-- The object lies behind the tag and in front of the guard page. -/
theorem guardedOffset_spec {blockSize : ℕ}
    (hroom : objSize + g.osPage + 8 ≤ blockSize)
    (hword : blockSize < wordSize) :
    8 ≤ guardedOffset g blockSize objSize ∧
      guardedOffset g blockSize objSize + objSize + g.osPage ≤ blockSize ∧
      (8 ∣ blockSize → 8 ∣ objSize →
        8 ∣ guardedOffset g blockSize objSize) := by
  have hmod : (blockSize + 2 * wordSize - g.osPage - objSize) % wordSize =
      blockSize - g.osPage - objSize := by
    rw [show blockSize + 2 * wordSize - g.osPage - objSize =
      blockSize - g.osPage - objSize + 2 * wordSize by omega,
      Nat.add_mul_mod_self_right]
    exact Nat.mod_eq_of_lt (by omega)
  have hmax : blockAlignmentMax = 2 ^ 24 := rfl
  have hpage : 8 ∣ g.osPage := dvd_trans (by decide) g.dvd_osPage
  unfold guardedOffset
  dsimp only
  rw [hmod]
  split
  · refine ⟨by omega, by omega, fun _ _ => by rw [hmax]; decide⟩
  · refine ⟨by omega, by omega, ?_⟩
    intro hblock hobj
    exact Nat.dvd_sub (Nat.dvd_sub hblock hpage) hobj

/-! ## Protecting one page -/

theorem osProtectx_page (noAccess : ℕ → Bool) (addr : ℕ) (protect : Bool)
    (k : ℕ) :
    osProtectx g noAccess addr g.osPage protect k =
      if addr % g.osPage = 0 ∧ k = addr / g.osPage then protect
      else noAccess k := by
  have hpos := g.osPage_pos
  have hstop : (addr + g.osPage) / g.osPage = addr / g.osPage + 1 :=
    Nat.add_div_right addr hpos
  have hsplit := Nat.div_add_mod addr g.osPage
  have hlt := Nat.mod_lt addr hpos
  have hstart : (addr + g.osPage - 1) / g.osPage =
      addr / g.osPage + (addr % g.osPage + g.osPage - 1) / g.osPage := by
    rw [← Nat.mul_add_div hpos]
    congr 1
    omega
  have hround : (addr % g.osPage + g.osPage - 1) / g.osPage =
      if addr % g.osPage = 0 then 0 else 1 := by
    split
    · next hzero => exact Nat.div_eq_of_lt (by omega)
    · next hne => exact Nat.div_eq_of_lt_le (by omega) (by omega)
  unfold osProtectx
  rw [hstart, hround, hstop]
  apply if_congr ?_ rfl rfl
  split <;> omega

/-! ## One object -/

structure Guarded (g : GuardBuild) (mem : Mem) (page : BlockPage)
    (o : HeapObject) (guard : Option ℕ) : Prop where
  ptr_ge : o.block + 8 ≤ o.ptr
  fits : o.ptr + o.asked + g.osPage ≤ o.block + page.blockSize
  tag : load mem o.block 8 = blockTagGuarded
  last : ∀ k, guard = some k →
    k * g.osPage + g.osPage = o.block + page.blockSize

/-- Every object is guarded, or starts with its block. -/
def ObjectGuard (g : GuardBuild) (mem : Mem) (page : BlockPage)
    (o : HeapObject) (guard : Option ℕ) : Prop :=
  o.ptr = o.block ∧ guard = none ∨ Guarded g mem page o guard

namespace ObjectGuard

theorem congr (h : ObjectGuard g mem page o guard)
    (hsize : page'.blockSize = page.blockSize)
    (hsame : SameOn o.block (o.block + 8) mem mem') :
    ObjectGuard g mem' page' o guard := by
  rcases h with hplain | hguarded
  · exact Or.inl hplain
  · refine Or.inr ⟨hguarded.ptr_ge, ?_, ?_, ?_⟩
    · rw [hsize]
      exact hguarded.fits
    · rw [load_congr hsame]
      exact hguarded.tag
    · rw [hsize]
      exact hguarded.last

/-- The bytes before the object, among them the tag, do not change when the
object is written to. -/
theorem write (h : ObjectGuard g mem page o guard)
    (hmem : ChangesOnly o.ptr (o.ptr + size) mem mem') :
    ObjectGuard g mem' page o guard := by
  rcases h with hplain | hguarded
  · exact Or.inl hplain
  · have hge := hguarded.ptr_ge
    exact congr (Or.inr hguarded) rfl (hmem.sameOn (by omega))

theorem last (h : ObjectGuard g mem page o (some k)) :
    k * g.osPage + g.osPage = o.block + page.blockSize ∧
      g.osPage + 8 ≤ page.blockSize := by
  rcases h with ⟨-, hnone⟩ | hguarded
  · exact nomatch hnone
  · have hge := hguarded.ptr_ge
    have hfits := hguarded.fits
    exact ⟨hguarded.last k rfl, by omega⟩

end ObjectGuard

variable {pages : ℕ → Option BlockPage}

theorem GuardBuild.usable_eq (g : GuardBuild) (mem : Mem) (page : BlockPage)
    (block : ℕ) :
    pageUsableSizeOf g.build mem page block = page.blockSize := by
  have hpadding : ¬g.build.padding = true := by
    rw [g.noPadding]
    exact Bool.false_ne_true
  unfold pageUsableSizeOf
  rw [if_neg hpadding]
  unfold usableBlockSize BlockBuild.paddingSize
  rw [if_neg hpadding, Nat.sub_zero]

/-- The usable bytes end with the block, or in front of the guard page. -/
theorem LiveObject.guardedUsableSize
    (h : LiveObject g.build mem pages o page usable)
    (hguard : ObjectGuard g mem page o guard) :
    (o.ptr = o.block ∧ guard = none ∧
      guardedUsableSize g mem page o.ptr = page.blockSize) ∨
    (Guarded g mem page o guard ∧
      o.ptr + guardedUsableSize g mem page o.ptr + g.osPage =
        o.block + page.blockSize) := by
  have hunalign := h.unalign_ptr
  unfold Palloc.guardedUsableSize pageUsableAlignedSizeOf
  dsimp only
  rw [hunalign, g.usable_eq, g.usable_eq]
  rcases hguard with ⟨hplain, hnone⟩ | hguarded
  · left
    refine ⟨hplain, hnone, ?_⟩
    have hnot : blockPtrIsGuarded mem o.block o.ptr = false := by
      unfold blockPtrIsGuarded
      rw [hplain, decide_eq_false (by omega), Bool.false_and]
    rw [hnot, hplain]
    simp
  · right
    refine ⟨hguarded, ?_⟩
    have hge := hguarded.ptr_ge
    have hfits := hguarded.fits
    have hflag : page.hasAligned = true := by
      by_contra hflag
      have hstart := h.aligned (Bool.eq_false_of_not_eq_true hflag)
      omega
    have hyes : blockPtrIsGuarded mem o.block o.ptr = true := by
      unfold blockPtrIsGuarded
      rw [decide_eq_true hge, Bool.true_and, hguarded.tag]
      exact beq_self_eq_true _
    rw [if_pos hflag, if_pos hyes]
    omega

/-- The object and its usable bytes lie in its block, in front of the page
that was protected for it. -/
theorem LiveObject.guarded_inside
    (h : LiveObject g.build mem pages o page usable)
    (hguard : ObjectGuard g mem page o guard) :
    o.asked ≤ Palloc.guardedUsableSize g mem page o.ptr ∧
      o.ptr + Palloc.guardedUsableSize g mem page o.ptr ≤
        o.block + page.blockSize ∧
      ∀ k, guard = some k →
        o.ptr + Palloc.guardedUsableSize g mem page o.ptr ≤
          k * g.osPage := by
  have husable := h.usable_eq
  have hfits := h.fits
  rw [g.usable_eq] at husable
  rcases h.guardedUsableSize hguard with
    ⟨hplain, hnone, hsize⟩ | ⟨hguarded, hsize⟩
  · refine ⟨by omega, by omega, ?_⟩
    intro k hk
    rw [hnone] at hk
    exact nomatch hk
  · have hguardFits := hguarded.fits
    refine ⟨by omega, by omega, ?_⟩
    intro k hk
    have hlast := hguarded.last k hk
    omega

/-! ## The invariant -/

structure GuardOk (g : GuardBuild) (st : GuardedHeap) : Prop where
  heap : HeapOk g.build st.heap
  object : ∀ o ∈ st.heap.live, ∀ page, st.heap.pages o.page = some page →
    ObjectGuard g st.heap.mem page o (st.guards o.slot)
  noAccess : ∀ k, st.noAccess k = true ↔
    ∃ o ∈ st.heap.live, st.guards o.slot = some k
  word : g.check = true → ∀ o ∈ st.heap.live, intptrSize ∣ o.ptr

namespace GuardOk

theorem start (g : GuardBuild) (mem : Mem) : GuardOk g (.start mem) := by
  refine ⟨HeapOk.start _ _, fun _ ho => (nomatch ho), ?_,
    fun _ _ ho => (nomatch ho)⟩
  intro k
  constructor
  · exact fun hk => (nomatch hk)
  · rintro ⟨o, ho, -⟩
    exact nomatch ho

theorem keep (h : GuardOk g st) (hheap : HeapOk g.build heap')
    (hlive : heap'.live = st.heap.live)
    (hobject : ∀ o ∈ st.heap.live, ∀ page, heap'.pages o.page = some page →
      ObjectGuard g heap'.mem page o (st.guards o.slot)) :
    GuardOk g { st with heap := heap' } := by
  refine ⟨hheap, ?_, ?_, ?_⟩
  · show ∀ o ∈ heap'.live, _
    rw [hlive]
    exact hobject
  · show ∀ k, st.noAccess k = true ↔ ∃ o ∈ heap'.live, _
    rw [hlive]
    exact h.noAccess
  · show _ → ∀ o ∈ heap'.live, _
    rw [hlive]
    exact h.word

theorem kept (h : GuardOk g st) (ho : o ∈ st.heap.live)
    (hkept : ObjectKept g.build st.heap heap' o) :
    ∀ page, heap'.pages o.page = some page →
      ObjectGuard g heap'.mem page o (st.guards o.slot) := by
  intro page hpage
  obtain ⟨p, usable, hobject⟩ := h.heap.live o ho
  have hguard := h.object o ho p hobject.hpage
  obtain ⟨p', hsame, hobject'⟩ := hkept.page p usable hobject
  obtain rfl : p' = page :=
    Option.some.inj (hobject'.hpage.symm.trans hpage)
  have hsize : p'.blockSize = p.blockSize := by rw [hsame]
  have height := (h.heap.layout.ok o.page p hobject.hpage).eight_le
  exact hguard.congr hsize
    ((hkept.mem p hobject.hpage).mono le_rfl (by omega))

theorem background (h : GuardOk g st)
    (hback : BackgroundStep st.heap heap') :
    GuardOk g { st with heap := heap' } := by
  obtain ⟨hheap, hlive, hkept⟩ := hback.keeps h.heap
  exact h.keep hheap hlive fun o ho => h.kept ho (hkept o ho)

theorem write (h : GuardOk g st) (ho : o ∈ st.heap.live)
    (hmem : ChangesOnly o.ptr (o.ptr + o.asked) st.heap.mem mem) :
    GuardOk g { st with heap := { st.heap with mem := mem } } := by
  obtain ⟨page, usable, hobject⟩ := h.heap.live o ho
  have hge := hobject.ptr_ge
  have hfits := hobject.fits
  have hle := hobject.usable_le
  have hsize := usableBlockSize_le g.build page
  have hblock : ChangesOnly o.block (o.block + usableBlockSize g.build page)
      st.heap.mem mem := hmem.mono hge (by omega)
  have hchange : ChangesOnly o.block (o.block + page.blockSize) st.heap.mem
      mem := hblock.mono le_rfl (by omega)
  apply h.keep (h.heap.write hobject hblock) rfl
  intro other hother page' hpage'
  by_cases heq : other = o
  · subst heq
    exact (h.object other hother page' hpage').write hmem
  · have hkept : ObjectKept g.build st.heap { st.heap with mem := mem }
        other :=
      h.heap.kept_other hother hobject.toIsBlock
        (fun hslot => heq (h.heap.eq_of_slot hother ho hslot)) rfl hchange
    exact h.kept hother hkept page' hpage'

theorem reask {newsize : ℕ} (h : GuardOk g st) (ho : o ∈ st.heap.live)
    (hpage : st.heap.pages o.page = some page)
    (hfits : newsize ≤ guardedUsableSize g st.heap.mem page o.ptr) :
    GuardOk g { st with heap := st.heap.reask o newsize } := by
  obtain ⟨usable, hobject⟩ := h.heap.object ho hpage
  have hguard := h.object o ho page hpage
  have hspec := hobject.guardedUsableSize hguard
  have husable := hobject.usable_eq
  have hge := hobject.ptr_ge
  rw [g.usable_eq] at husable
  have hmem : ∀ other, other ∈ (st.heap.reask o newsize).live ↔
      other = { o with asked := newsize } ∨ other ∈ st.heap.live.erase o :=
    fun _ => List.mem_cons
  refine ⟨?_, ?_, ?_, ?_⟩
  · apply h.heap.reask ho hpage
    rw [hobject.usableSize]
    rcases hspec with ⟨hplain, -, hsize⟩ | ⟨hguarded, hsize⟩ <;> omega
  · intro other hother page' hpage'
    rcases (hmem other).mp hother with rfl | hold
    · obtain rfl : page = page' := Option.some.inj (hpage.symm.trans hpage')
      rcases hspec with ⟨hplain, hnone, -⟩ | ⟨hguarded, hsize⟩
      · exact Or.inl ⟨hplain, hnone⟩
      · refine Or.inr ⟨hguarded.ptr_ge, ?_, hguarded.tag, hguarded.last⟩
        show o.ptr + newsize + g.osPage ≤ o.block + page.blockSize
        omega
    · exact h.object other (List.mem_of_mem_erase hold) page' hpage'
  · intro k
    rw [h.noAccess]
    constructor
    · rintro ⟨other, hother, hk⟩
      by_cases heq : other = o
      · subst heq
        exact ⟨_, (hmem _).mpr (Or.inl rfl), hk⟩
      · exact ⟨other, (hmem other).mpr
          (Or.inr ((List.mem_erase_of_ne heq).mpr hother)), hk⟩
    · rintro ⟨other, hother, hk⟩
      rcases (hmem other).mp hother with rfl | hold
      · exact ⟨o, ho, hk⟩
      · exact ⟨other, List.mem_of_mem_erase hold, hk⟩
  · intro hcheck other hother
    rcases (hmem other).mp hother with rfl | hold
    · exact h.word hcheck o ho
    · exact h.word hcheck other (List.mem_of_mem_erase hold)

/-- Protected pages lie in the blocks of the objects they are protected
for. -/
theorem guard_inside (h : GuardOk g st) (ho : o ∈ st.heap.live)
    (hpage : st.heap.pages o.page = some page)
    (hguard : st.guards o.slot = some k) :
    o.block ≤ k * g.osPage ∧
      k * g.osPage + g.osPage = o.block + page.blockSize := by
  have hobject := h.object o ho page hpage
  rw [hguard] at hobject
  have hlast := hobject.last
  omega

theorem guard_unique (h : GuardOk g st) (ho : o ∈ st.heap.live)
    (hnew : new ∈ st.heap.live) (hguard : st.guards o.slot = some k)
    (hguard' : st.guards new.slot = some k) : o = new := by
  by_contra hne
  obtain ⟨page, hpage⟩ := h.heap.exists_page ho
  obtain ⟨page', hpage'⟩ := h.heap.exists_page hnew
  have hin := h.guard_inside ho hpage hguard
  have hin' := h.guard_inside hnew hpage' hguard'
  have hapart := h.heap.apart ho hnew hne hpage hpage'
  have hpos := g.osPage_pos
  omega

/-! ## Free -/

theorem checkUnguard_eq (h : GuardOk g st) (ho : o ∈ st.heap.live)
    (hpage : st.heap.pages o.page = some page) :
    blockCheckUnguard g st page o.block o.ptr k =
      (st.noAccess k && decide (st.guards o.slot ≠ some k)) := by
  have hpos := g.osPage_pos
  have hmine : ∀ k, st.noAccess k = true →
      o.block ≤ k * g.osPage → (k + 1) * g.osPage ≤
        o.block + page.blockSize → st.guards o.slot = some k := by
    intro k hk hlow hhigh
    obtain ⟨other, hother, hguard⟩ := (h.noAccess k).mp hk
    by_cases heq : o = other
    · rw [heq]
      exact hguard
    · obtain ⟨page', hpage'⟩ := h.heap.exists_page hother
      have hin := h.guard_inside hother hpage' hguard
      have hapart := h.heap.apart ho hother heq hpage hpage'
      rw [Nat.add_mul] at hhigh
      omega
  unfold blockCheckUnguard
  rcases h.object o ho page hpage with ⟨hplain, hnone⟩ | hguarded
  · have hnot : blockPtrIsGuarded st.heap.mem o.block o.ptr = false := by
      unfold blockPtrIsGuarded
      rw [hplain, decide_eq_false (by omega), Bool.false_and]
    rw [hnot, hnone]
    simp
  · have hge := hguarded.ptr_ge
    have hfits := hguarded.fits
    have hyes : blockPtrIsGuarded st.heap.mem o.block o.ptr = true := by
      unfold blockPtrIsGuarded
      rw [decide_eq_true hge, Bool.true_and, hguarded.tag]
      exact beq_self_eq_true _
    rw [if_pos hyes]
    unfold blockUnguard
    rw [osProtectx_page]
    generalize haddr : o.block + page.blockSize - g.osPage = addr
    split
    · next hwhole =>
        obtain ⟨hzero, rfl⟩ := hwhole
        have hmul : addr / g.osPage * g.osPage = addr :=
          Nat.div_mul_cancel (Nat.dvd_of_mod_eq_zero hzero)
        cases hk : st.noAccess (addr / g.osPage) with
        | false => rfl
        | true =>
            have hsome := hmine _ hk (by omega)
              (by rw [Nat.add_mul, hmul]; omega)
            simp [hsome]
    · next hother =>
        have hne : st.guards o.slot ≠ some k := by
          intro hsome
          have hlast := hguarded.last k hsome
          apply hother
          have heq : addr = k * g.osPage := by omega
          rw [heq]
          exact ⟨Nat.mul_mod_left k _, (Nat.mul_div_cancel k hpos).symm⟩
        rw [decide_eq_true hne, Bool.and_true]

/-- Every way to free an object takes it away, changes bytes of its block,
and unprotects what `pa_block_check_unguard` finds. -/
theorem paFree_eq (h : GuardOk g st) (ho : o ∈ st.heap.live)
    (hpage : st.heap.pages o.page = some page) (kind : GuardedFree) :
    ∃ (mem : Mem) (useDelayed : Bool),
      ChangesOnly o.block (o.block + page.blockSize) st.heap.mem mem ∧
      guardedPaFree g st o kind =
        { st with
          heap := { st.heap with
            mem := mem
            live := st.heap.live.erase o
            delayed :=
              if useDelayed then o.slot :: st.heap.delayed
              else st.heap.delayed }
          noAccess := blockCheckUnguard g st page o.block o.ptr } := by
  obtain ⟨usable, hobject⟩ := h.heap.object ho hpage
  have hok := h.heap.layout.ok o.page page hpage
  have height := hok.eight_le
  have haccepted : ptrAccepted g.check o.ptr = true := by
    rw [ptrAccepted_iff]
    cases hcheck : g.check with
    | false => exact Or.inl rfl
    | true => exact Or.inr (h.word hcheck o ho)
  unfold guardedPaFree
  rw [hpage]
  dsimp only
  rw [if_pos haccepted]
  cases kind with
  | owner link =>
      dsimp only
      rw [hobject.blockOf (.inl rfl)]
      exact ⟨guardedFreedLocal g st.heap.mem page o.block link, false,
        freedLocal_changesOnly height, rfl⟩
  | reclaimed link =>
      dsimp only
      rw [hobject.unalign_ptr]
      exact ⟨guardedFreedLocal g st.heap.mem page o.block link, false,
        freedLocal_changesOnly height, rfl⟩
  | other link useDelayed reset =>
      dsimp only
      rw [hobject.unalign_ptr]
      exact ⟨store (freedMt g.build st.heap.mem page o.block reset) o.block 8
        link, useDelayed,
        (freedContent_changesOnly hok (freedMt_content reset)).trans
          (store_changesOnly.mono le_rfl (by omega)), rfl⟩

theorem freed (h : GuardOk g st) (ho : o ∈ st.heap.live)
    (kind : GuardedFree) (k : ℕ) :
    (guardedPaFree g st o kind).noAccess k =
      (st.noAccess k && decide (st.guards o.slot ≠ some k)) := by
  obtain ⟨page, hpage⟩ := h.heap.exists_page ho
  obtain ⟨mem, useDelayed, -, heq⟩ := h.paFree_eq ho hpage kind
  rw [heq]
  exact h.checkUnguard_eq ho hpage

theorem free (h : GuardOk g st) (ho : o ∈ st.heap.live)
    (kind : GuardedFree) : GuardOk g (guardedPaFree g st o kind) := by
  obtain ⟨page, usable, hobject⟩ := h.heap.live o ho
  have hfreed := h.freed ho kind
  obtain ⟨mem, useDelayed, hmem, heq⟩ := h.paFree_eq ho hobject.hpage kind
  have hheap := h.heap.remove ho hobject.hpage hmem useDelayed
  have hnodup : st.heap.live.Nodup :=
    List.Nodup.of_map _ (List.nodup_append.mp h.heap.nodup).1
  have hmemErase : ∀ other, other ∈ st.heap.live.erase o ↔
      other ≠ o ∧ other ∈ st.heap.live := fun _ => hnodup.mem_erase_iff
  rw [heq] at hfreed ⊢
  refine ⟨hheap, ?_, ?_, ?_⟩
  · intro other hother page' hpage'
    obtain ⟨hne, hold⟩ := (hmemErase other).mp hother
    have hkept : ObjectKept g.build st.heap { st.heap with mem := mem }
        other :=
      h.heap.kept_other hold hobject.toIsBlock
        (fun hslot => hne (h.heap.eq_of_slot hold ho hslot)) rfl hmem
    exact h.kept hold hkept page' hpage'
  · intro k
    rw [hfreed k, Bool.and_eq_true, decide_eq_true_iff, h.noAccess]
    constructor
    · rintro ⟨⟨other, hother, hguard⟩, hne⟩
      refine ⟨other, (hmemErase other).mpr ⟨?_, hother⟩, hguard⟩
      rintro rfl
      exact hne hguard
    · rintro ⟨other, hother, hguard⟩
      obtain ⟨hne, hold⟩ := (hmemErase other).mp hother
      exact ⟨⟨other, hold, hguard⟩,
        fun hmine => hne (h.guard_unique hold ho hguard hmine)⟩
  · intro hcheck other hother
    exact h.word hcheck other ((hmemErase other).mp hother).2

/-! ## Allocation -/

/-- A new object comes with the page that is protected for it. -/
theorem insert (h : GuardOk g st) (hheap : HeapOk g.build heap')
    (hlive : heap'.live = new :: st.heap.live)
    (hunused : new.slot ∉ st.heap.slots)
    (hkept : ∀ o ∈ st.heap.live, ObjectKept g.build st.heap heap' o)
    (hguard : ∀ page, heap'.pages new.page = some page →
      ObjectGuard g heap'.mem page new guard)
    (hword : g.check = true → intptrSize ∣ new.ptr)
    (hnoAccess : ∀ k, noAccess k = true ↔
      st.noAccess k = true ∨ guard = some k) :
    GuardOk g ⟨heap', noAccess, Function.update st.guards new.slot guard⟩ := by
  have hmem : ∀ other, other ∈ heap'.live ↔
      other = new ∨ other ∈ st.heap.live := by
    intro other
    rw [hlive, List.mem_cons]
  have hother : ∀ other ∈ st.heap.live,
      Function.update st.guards new.slot guard other.slot =
        st.guards other.slot := by
    intro other hold
    apply Function.update_of_ne
    intro heq
    apply hunused
    rw [← heq]
    exact HeapOk.slot_mem hold
  have hself : Function.update st.guards new.slot guard new.slot = guard :=
    Function.update_self _ _ _
  refine ⟨hheap, ?_, ?_, ?_⟩
  · intro other hlive' page hpage
    show ObjectGuard g heap'.mem page other
      (Function.update st.guards new.slot guard other.slot)
    rcases (hmem other).mp hlive' with rfl | hold
    · rw [hself]
      exact hguard page hpage
    · rw [hother other hold]
      exact h.kept hold (hkept other hold) page hpage
  · intro k
    show noAccess k = true ↔ ∃ o ∈ heap'.live,
      Function.update st.guards new.slot guard o.slot = some k
    rw [hnoAccess, h.noAccess]
    constructor
    · rintro (⟨other, hold, hk⟩ | hk)
      · exact ⟨other, (hmem other).mpr (Or.inr hold),
          (hother other hold).trans hk⟩
      · exact ⟨new, (hmem new).mpr (Or.inl rfl), hself.trans hk⟩
    · rintro ⟨other, hlive', hk⟩
      rcases (hmem other).mp hlive' with rfl | hold
      · exact Or.inr (hself.symm.trans hk)
      · exact Or.inl ⟨other, hold, (hother other hold).symm.trans hk⟩
  · intro hcheck other hlive'
    rcases (hmem other).mp hlive' with rfl | hold
    · exact hword hcheck
    · exact h.word hcheck other hold

theorem mallocUnguarded (h : GuardOk g st) {zero : Bool}
    (hcan : st.heap.CanAlloc id page block
      (BlockHeap.requestSize g.build size)) :
    GuardOk g (heapMallocUnguarded g st id page block size zero) := by
  obtain ⟨hheap, ⟨usable, hobject⟩, hmem⟩ := @HeapOk.malloc g.build st.heap
    id block size page zero h.heap hcan
  have hkept : ∀ o ∈ st.heap.live, ObjectKept g.build st.heap
      (malloc g.build st.heap id page block size zero) o := by
    intro o ho
    exact h.heap.kept_other ho hcan.isBlock (HeapOk.slot_ne_new hcan ho) rfl
      hmem
  refine h.insert hheap rfl hcan.unused hkept
    (fun _ _ => Or.inl ⟨rfl, rfl⟩) (fun _ => hcan.isBlock.word h.heap.layout)
    ?_
  simp

/-- A guarded object of an admitted size always fits, and what is protected
is the last OS page of its block. -/
theorem mallocGuarded (h : GuardOk g st) {zero protects : Bool} {link : ℕ}
    (hsize : size < guardedSizeEnd) (hword : page.blockSize < wordSize)
    (hcan : st.heap.CanAlloc id page block
      (guardedReqSize g (guardedObjSize g size))) :
    ∃ new, (heapMallocGuarded g st id page block size zero protects link).1 =
        some new ∧ new.asked = size ∧
      new ∈ (heapMallocGuarded g st id page block size zero protects
        link).2.heap.live ∧
      GuardOk g
        (heapMallocGuarded g st id page block size zero protects link).2 := by
  obtain ⟨hle, -, hobjWord⟩ := @guardedObjSize_spec g size hsize
  have hroom := (@guardedReqSize_room g size hsize).trans hcan.fits
  obtain ⟨htag, hfits, hoffsetWord⟩ := guardedOffset_spec hroom hword
  have hok := h.heap.layout.ok id page hcan.hpage
  have hpos := g.osPage_pos
  have hcheck : ¬page.blockSize <
      (guardedObjSize g size + g.osPage + 8) % wordSize := by
    have hmod := Nat.mod_le (guardedObjSize g size + g.osPage + 8) wordSize
    omega
  set page' : BlockPage := { page with hasAligned := true } with hpage'
  have hsame : SameBlocks page page' := rfl
  set heap₁ : BlockHeap := { st.heap with
    pages := Function.update st.heap.pages id (some page') } with hheap₁
  have hset : HeapOk g.build heap₁ :=
    h.heap.setFlags hcan.hpage hsame fun hflag => nomatch hflag
  unfold heapMallocGuarded blockPtrSetGuarded
  dsimp only
  rw [if_neg hcheck]
  refine ⟨_, rfl, rfl, List.mem_cons_self, ?_⟩
  set p := block + guardedOffset g page.blockSize (guardedObjSize g size)
    with hp
  set mem := store (finishAlloc g.build st.heap.mem page block
    (guardedReqSize g (guardedObjSize g size)) zero) block 8 blockTagGuarded
    with hmemDef
  have hmem : ChangesOnly block (block + page.blockSize) st.heap.mem mem :=
    (finishAlloc_changesOnly hok.eight_le).trans
      (store_changesOnly.mono le_rfl (by omega))
  set new : HeapObject := ⟨id, block, p, size⟩ with hnewDef
  have hunused : new.slot ∉ st.heap.slots := hcan.unused
  have hnew : LiveObject g.build mem heap₁.pages new page'
      page.blockSize := by
    refine ⟨hsame.isBlock hcan.isBlock, g.usable_eq mem page' block,
      Nat.le_add_right _ _, ?_, ?_, ?_, fun hflag => nomatch hflag⟩
    · show p < block + page.blockSize
      omega
    · intro q hlo hhi
      change q ≤ p at hhi
      exact hcan.isBlock.ptrUnalign hcan.whole hlo (by omega)
    · show p + size ≤ block + page.blockSize
      omega
  have hchange : ChangesOnly block (block + page'.blockSize) heap₁.mem mem :=
    hmem
  have hheap := hset.insert hunused hchange hnew
  have hkept : ∀ o ∈ st.heap.live, ObjectKept g.build st.heap
      { heap₁ with mem := mem, live := new :: heap₁.live } o := by
    intro o ho
    obtain ⟨pageOf, usable, hobject⟩ := h.heap.live o ho
    have hne : o.slot ≠ (id, block) := by
      intro hslot
      apply hunused
      rw [show new.slot = o.slot from hslot.symm]
      exact HeapOk.slot_mem ho
    have hflags : ObjectKept g.build st.heap heap₁ o :=
      hsame.kept hcan.hpage (fun hflag => nomatch hflag) rfl rfl
    exact hflags.trans hobject
      (hset.kept_other ho (hsame.isBlock hcan.isBlock) hne rfl hchange)
  refine h.insert hheap rfl hunused hkept ?_ ?_ ?_
  · intro pageOf hpageOf
    obtain rfl : page' = pageOf :=
      Option.some.inj (hnew.hpage.symm.trans hpageOf)
    refine Or.inr ⟨?_, ?_, ?_, ?_⟩
    · show block + 8 ≤ p
      omega
    · show p + size + g.osPage ≤ block + page.blockSize
      omega
    · exact load_store
    · intro k hk
      show k * g.osPage + g.osPage = block + page.blockSize
      split at hk
      · next hguarded =>
          obtain rfl := Option.some.inj hk
          rw [Nat.div_mul_cancel (Nat.dvd_of_mod_eq_zero hguarded.1)]
          omega
      · exact nomatch hk
  · intro hcheck
    have hprecise : g.precise = false := by
      unfold GuardBuild.check at hcheck
      simpa using (Bool.and_eq_true_iff.mp hcheck).2
    have hblock := hcan.isBlock.word h.heap.layout
    exact Nat.dvd_add hblock (hoffsetWord hok.word
      (dvd_trans (by decide) (hobjWord hprecise)))
  · intro k
    by_cases hguarded : (block + page.blockSize - g.osPage) % g.osPage = 0 ∧
        protects = true
    · rw [if_pos hguarded, if_pos hguarded, osProtectx_page]
      by_cases hk : k = (block + page.blockSize - g.osPage) / g.osPage
      · rw [if_pos ⟨hguarded.1, hk⟩, ← hk]
        simp
      · rw [if_neg fun hand => hk hand.2]
        constructor
        · exact Or.inl
        · rintro (hold | hsome)
          · exact hold
          · exact absurd (Option.some.inj hsome).symm hk
    · rw [if_neg hguarded, if_neg hguarded]
      simp

/-! ## Runs -/

theorem alloc {guarded : Bool} {result : Option HeapObject}
    (h : GuardOk g st) (hsize : guarded = true → size < guardedSizeEnd)
    (halloc : GuardedAlloc g st size guarded result st') :
    GuardOk g st' ∧ ∀ new, result = some new →
      new ∈ st'.heap.live ∧ max size 1 ≤ new.asked := by
  have hmin : max size 1 ≤ guardedSize size := by
    unfold guardedSize intptrSize
    split <;> omega
  cases halloc with
  | failed => exact ⟨h, fun _ hnew => nomatch hnew⟩
  | unguarded zero hcan =>
      refine ⟨h.mallocUnguarded hcan, ?_⟩
      intro new hnew
      obtain rfl := Option.some.inj hnew
      exact ⟨List.mem_cons_self, hmin⟩
  | @guarded id page block zero protects link hword hcan =>
      have hadmitted : guardedSize size < guardedSizeEnd := by
        have hlt := hsize rfl
        unfold guardedSize
        split
        · decide
        · exact hlt
      obtain ⟨o, hsome, hasked, hlive, hok⟩ := @mallocGuarded g st id block
        (guardedSize size) page h zero protects link hadmitted hword hcan
      refine ⟨hok, ?_⟩
      intro new hnew
      obtain rfl : o = new := Option.some.inj (hsome.symm.trans hnew)
      exact ⟨hlive, hmin.trans (le_of_eq hasked.symm)⟩

theorem step {e : GuardedEvent} (h : GuardOk g st)
    (hstep : GuardedStep g st e st') (hevent : e.Unbroken g st) :
    GuardOk g st' := by
  cases hstep with
  | background hback => exact h.background hback
  | write o mem ho hmem => exact h.write ho hmem
  | malloc halloc => exact (h.alloc hevent halloc).1
  | free o kind ho => exact h.free ho kind
  | reallocInPlace o guarded newsize next commit ho hpage hfits =>
      exact h.reask ho hpage hfits.1
  | reallocExtend o guarded newsize next commit zero ho hpage hextends
      hunused =>
      exact absurd hextends (hevent.2 _ hpage)
  | reallocFails o guarded newsize next commit ho hpage hfits hextends
      halloc =>
      exact (h.alloc hevent.1 halloc).1
  | reallocCopy o guarded newsize next commit zero ho hpage hfits hextends
      halloc =>
      obtain ⟨hok, hnew⟩ := h.alloc hevent.1 halloc
      obtain ⟨hmem, hasked⟩ := hnew _ rfl
      exact hok.write hmem
        (reallocContent_changesOnly.mono le_rfl (by omega))

theorem run (hrun : GuardedRun g st) : GuardOk g st := by
  induction hrun with
  | start mem => exact .start g mem
  | step hrun hstep hevent ih => exact ih.step hstep hevent

end GuardOk

section Extended

def guardBuild : GuardBuild where
  build := ⟨false, true, false⟩
  precise := false
  osPageShift := 12
  noPadding := rfl
  four_le := by decide
  le_sixty := by decide

def guardStart : GuardedHeap :=
  { GuardedHeap.start fun _ => 0#8 with
    heap := (BlockHeap.start fun _ => 0#8).withPage 0 16 1048576 }

def guardMade : GuardedHeap :=
  (heapMallocGuarded guardBuild guardStart 0 (freshPage 0 16 1048576) 33619968
    1044464 false true 0).2

def guardObject : HeapObject := ⟨0, 33619968, 33619984, 1044464⟩

def guardPage : BlockPage :=
  { freshPage 0 16 1048576 with hasAligned := true }

theorem guardMade_run : GuardedRun guardBuild guardMade := by
  have hpage : BackgroundStep (BlockHeap.start fun _ => 0#8)
      guardStart.heap := by
    have hstep : Step guardBuild.build false (BlockHeap.start fun _ => 0#8)
        .other guardStart.heap :=
      BlockHeap.withPage_step rfl (by decide) (by decide) (by decide)
        (by decide) fun _ _ _ h => (nomatch h)
    have hok := (HeapOk.start guardBuild.build _).step hstep False.elim
    exact .page 0 _ (fun _ h => (nomatch h)) hok.layout
  have hstart : GuardedRun guardBuild guardStart :=
    (GuardedRun.start _).step (.background hpage) trivial
  have hstep : GuardedStep guardBuild guardStart (.malloc true 1044464)
      guardMade := by
    refine .malloc (.guarded false true 0 (by decide) ?_)
    exact ⟨rfl, ⟨0, by decide, by decide⟩, by decide, by decide,
      fun _ => by decide, fun _ => by decide⟩
  exact hstart.step hstep fun _ => by decide

/-- A request that wraps around gets room for an empty object. -/
example : guardedObjSize guardBuild (2 ^ 64 - 1) = 0 ∧
    guardedReqSize guardBuild 0 = 8192 := by decide

end Extended

end Palloc
