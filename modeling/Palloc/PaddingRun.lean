import Palloc.PaddingSteps
import Mathlib.Logic.Relation

/-!
# Padding checks over a run

As long as no `realloc` extends its page in place, and the allocator refuses
no address that it returned, no check of the padding raises an alarm.  The
extension sets the block size of the page to the size of its slices, and the
record of the object is then looked for at an address where none was written.
An address that is refused has no usable bytes.
-/

namespace Palloc

open ByteMemory BlockHeap

variable {b : BlockBuild} {st st' : BlockHeap} {mem : Mem}
variable {pages : ℕ → Option BlockPage} {id : ℕ} {page : BlockPage}
variable {check : Bool}

/-! ## Pages come and go -/

theorem LayoutOk.addPage (h : LayoutOk pages) (hok : PageOk page)
    (hsingle : page.StartsWhole)
    (hunused : ∀ id' page', id' ≠ id → pages id' = some page' →
      page.sliceEnd ≤ page'.sliceStart ∨ page'.sliceEnd ≤ page.sliceStart) :
    LayoutOk (Function.update pages id (some page)) := by
  constructor
  · intro other p hp
    by_cases hother : other = id
    · subst hother
      rw [Function.update_self] at hp
      obtain rfl := Option.some.inj hp
      exact hok
    · rw [Function.update_of_ne hother] at hp
      exact h.ok other p hp
  · intro i j p p' hne hp hp'
    by_cases hi : i = id
    · subst hi
      rw [Function.update_self] at hp
      rw [Function.update_of_ne hne.symm] at hp'
      obtain rfl := Option.some.inj hp
      exact hunused j p' hne.symm hp'
    · rw [Function.update_of_ne hi] at hp
      by_cases hj : j = id
      · subst hj
        rw [Function.update_self] at hp'
        obtain rfl := Option.some.inj hp'
        exact (hunused i p hi hp).symm
      · rw [Function.update_of_ne hj] at hp'
        exact h.apart i j p p' hne hp hp'
  · intro other p hp
    by_cases hother : other = id
    · subst hother
      rw [Function.update_self] at hp
      obtain rfl := Option.some.inj hp
      exact hsingle
    · rw [Function.update_of_ne hother] at hp
      exact h.single other p hp

theorem LayoutOk.removePage (h : LayoutOk pages) :
    LayoutOk (Function.update pages id none) := by
  have hold : ∀ other p, Function.update pages id none other = some p →
      pages other = some p := by
    intro other p hp
    by_cases hother : other = id
    · subst hother
      rw [Function.update_self] at hp
      exact nomatch hp
    · rwa [Function.update_of_ne hother] at hp
  constructor
  · intro other p hp
    exact h.ok other p (hold other p hp)
  · intro i j p p' hne hp hp'
    exact h.apart i j p p' hne (hold i p hp) (hold j p' hp')
  · intro other p hp
    exact h.single other p (hold other p hp)

namespace PaddingOk

theorem slot_page (h : PaddingOk b st) {slot : ℕ × ℕ}
    (hslot : slot ∈ st.slots) : ∃ page, st.pages slot.1 = some page := by
  rcases List.mem_append.mp hslot with hlive | hdelayed
  · obtain ⟨o, ho, rfl⟩ := List.mem_map.mp hlive
    obtain ⟨page, usable, huse, -⟩ := h.live o ho
    exact ⟨page, huse.hpage⟩
  · obtain ⟨page, usable, huse, -⟩ := h.delayed slot hdelayed
    exact ⟨page, huse.hpage⟩

theorem noSlot (h : PaddingOk b st) (hid : st.pages id = none) (block : ℕ) :
    (id, block) ∉ st.slots := by
  intro hslot
  obtain ⟨page, hpage⟩ := h.slot_page hslot
  rw [hid] at hpage
  exact nomatch hpage

theorem interfere (hb : b.padding = true) (h : PaddingOk b st)
    (hlive : ∀ o ∈ st.live, ∀ page, st.pages o.page = some page →
      SameOn o.block (o.block + page.blockSize) st.mem mem)
    (hdelayed : ∀ d ∈ st.delayed, ∀ page, st.pages d.1 = some page →
      SameOn (d.2 + 8) (d.2 + page.blockSize) st.mem mem) :
    PaddingOk b { st with mem := mem } := by
  constructor
  · exact h.layout
  · exact h.nodup
  · intro o ho
    obtain ⟨page, usable, huse, hrest⟩ := h.live o ho
    have hsame := hlive o ho page huse.hpage
    exact ⟨page, usable,
      huse.congr hb h.layout (hsame.mono (by omega) le_rfl), hrest⟩
  · intro d hd
    obtain ⟨page, usable, huse, hroom⟩ := h.delayed d hd
    have hsame := hdelayed d hd page huse.hpage
    exact ⟨page, usable,
      huse.congr hb h.layout (hsame.mono (by omega) le_rfl), hroom⟩

theorem step {e : Event} (hb : b.padding = true) (h : PaddingOk b st)
    (hstep : Step b check st e st') (hext : ¬Extends b check st e) :
    PaddingOk b st' := by
  cases hstep with
  | pageAlloc id addr segment idx sliceCount blockSize isHuge isZeroInit keys
      hid hcount hpos hword hslices hunused =>
      have hok := @blockPageInit_ok addr segment idx sliceCount blockSize
        isHuge isZeroInit keys hcount hpos hword fun hnot => (hslices hnot).1
      have hsingle := @blockPageInit_startsWhole addr segment idx sliceCount
        blockSize isHuge isZeroInit keys hpos fun hnot => (hslices hnot).2
      exact h.setPage (h.noSlot hid) (h.layout.addPage hok hsingle hunused)
  | pageFree id hid => exact h.setPage hid h.layout.removePage
  | pageRetire id page hid hpage =>
      apply h.setFlags hpage
      · rfl
      · intro _
        right
        rintro o ho rfl
        exact hid o.block (List.mem_append_left _ (List.mem_map_of_mem ho))
  | pageCollect id page hpage =>
      apply h.setFlags hpage
      · rfl
      · exact Or.inl
  | interfere mem hlive hdelayed => exact h.interfere hb hlive hdelayed
  | write o mem ho hmem =>
      obtain ⟨page, usable, huse, hlo, hhi, -⟩ := h.live o ho
      exact h.write hb huse (hmem.mono hlo hhi)
  | malloc asked zero hcan => exact (h.malloc hb hcan).1
  | mallocAligned size alignment offset zero hpos hpow hcan hreach =>
      exact (h.mallocAligned hb hpos hcan hreach).1
  | reallocInPlace o newsize next commit ho hpage hfits =>
      exact h.reask hb ho hpage (hfits.1.trans paUsableSize_le)
  | reallocExtend o newsize next commit zero ho hpage hhuge haccepted
      hextends hunused =>
      exact absurd ⟨_, hpage, hextends⟩ hext
  | reallocCopy o newsize next commit zero ho hpage hfits hextends hcan =>
      obtain ⟨hnew, usable, huse, hle⟩ := @malloc _ _ _ _ _ _ false hb h hcan
      exact hnew.write hb huse
        (reallocContent_changesOnly.mono le_rfl (by omega))
  | reallocNull newsize zero hcan =>
      obtain ⟨hnew, usable, huse, hle⟩ := @malloc _ _ _ _ _ _ false hb h hcan
      exact hnew.write hb huse
        (reallocContent_changesOnly.mono le_rfl (by omega))
  | reallocAlignedInPlace o newsize alignment offset ho hpage hfits =>
      exact h.reask hb ho hpage (hfits.1.trans paUsableSize_le)
  | reallocAlignedCopy o newsize alignment offset zero ho hpage hfits hcan =>
      obtain ⟨hnew, usable, huse, hle⟩ := @malloc _ _ _ _ _ _ false hb h hcan
      exact hnew.write hb huse
        (reallocAlignedContent_changesOnly.mono le_rfl (by omega))
  | reallocOveralignedCopy o newsize alignment offset zero hpos hpow ho hpage
      hfits hcan hreach =>
      obtain ⟨hnew, page', usable, huse, hle⟩ :=
        @mallocAligned _ _ _ _ _ false _ _ _ hb h hpos hcan hreach
      exact hnew.write hb huse
        (reallocAlignedContent_changesOnly.mono (by omega) (by omega))
  | freeLocal o p link ho hpage haccepted hp =>
      exact h.freeLocal hb ho hpage hp
  | freeMt o link useDelayed mem ho hpage haccepted hmem =>
      exact h.freeMt hb ho hpage hmem
  | freeRefused o ho hrefused => exact h
  | freeDelayed d link hd hpage => exact h.freeDelayed hb hd hpage

theorem start (mem : Mem) : PaddingOk b (BlockHeap.start mem) where
  layout := ⟨fun _ _ h => (nomatch h), fun _ _ _ _ _ h => (nomatch h),
    fun _ _ h => (nomatch h)⟩
  nodup := List.nodup_nil
  live := fun _ h => nomatch h
  delayed := fun _ h => nomatch h

end PaddingOk

/-! ## Addresses that are returned -/

/-- The allocator accepts the address of every object. -/
def BlockHeap.AllAccepted (check : Bool) (st : BlockHeap) : Prop :=
  ∀ o ∈ st.live, ptrAccepted check o.ptr = true

/-- Addresses are not checked, or the step returns none in the middle of a
word. -/
def BlockHeap.KeepsWords (check : Bool) : Event → Prop
  | .aligned alignment offset =>
      check = false ∨ offset % min intptrSize alignment = 0
  | _ => True

namespace BlockHeap.AllAccepted

variable {o new : HeapObject} {block size : ℕ}

theorem cons (h : st.AllAccepted check)
    (hnew : ptrAccepted check new.ptr = true)
    (hlive : st'.live = new :: st.live) : st'.AllAccepted check := by
  intro o ho
  rw [hlive] at ho
  rcases List.mem_cons.mp ho with rfl | hold
  · exact hnew
  · exact h o hold

theorem erase (h : st.AllAccepted check)
    (hlive : st'.live = st.live.erase o) : st'.AllAccepted check := by
  intro other hother
  rw [hlive] at hother
  exact h other (List.mem_of_mem_erase hother)

theorem reask (h : st.AllAccepted check) (ho : o ∈ st.live) (newsize : ℕ) :
    (st.reask o newsize).AllAccepted check := by
  intro other hother
  rcases List.mem_cons.mp hother with rfl | hold
  · exact h o ho
  · exact h other (List.mem_of_mem_erase hold)

theorem ofBlock (h : st.AllAccepted check) (hlayout : LayoutOk st.pages)
    (hcan : st.CanAlloc id page block size) {asked : ℕ}
    (hlive : st'.live = ⟨id, block, block, asked⟩ :: st.live) :
    st'.AllAccepted check :=
  h.cons (ptrAccepted_iff.mpr (.inr (hcan.isBlock.word hlayout))) hlive

/-- So is an aligned address in a block. -/
theorem ofAligned (h : st.AllAccepted check) (hlayout : LayoutOk st.pages)
    (hcan : st.CanAlloc id page block size) {alignment offset asked : ℕ}
    (hpos : 0 < alignment) (hpow : isPowerOfTwo alignment)
    (hwords : KeepsWords check (.aligned alignment offset))
    (hlive : st'.live =
      ⟨id, block, block + alignAdjust block alignment offset, asked⟩ ::
        st.live) : st'.AllAccepted check := by
  refine h.cons (ptrAccepted_iff.mpr ?_) hlive
  exact hwords.imp_right
    (alignAdjust_word_iff offset hpos hpow (hcan.isBlock.word hlayout)).mpr

theorem step {e : Event} (h : st.AllAccepted check)
    (hlayout : LayoutOk st.pages) (hstep : Step b check st e st')
    (hwords : KeepsWords check e) : st'.AllAccepted check := by
  cases hstep with
  | malloc asked zero hcan => exact h.ofBlock hlayout hcan rfl
  | mallocAligned size alignment offset zero hpos hpow hcan hreach =>
      exact h.ofAligned hlayout hcan hpos hpow hwords rfl
  | reallocInPlace o newsize next commit ho => exact h.reask ho newsize
  | reallocExtend o newsize next commit zero ho => exact h.reask ho newsize
  | reallocCopy o newsize next commit zero ho hpage hfits hextends hcan =>
      exact h.ofBlock hlayout hcan rfl
  | reallocNull newsize zero hcan => exact h.ofBlock hlayout hcan rfl
  | reallocAlignedInPlace o newsize alignment offset ho =>
      exact h.reask ho newsize
  | reallocAlignedCopy o newsize alignment offset zero ho hpage hfits hcan =>
      exact h.ofBlock hlayout hcan rfl
  | reallocOveralignedCopy o newsize alignment offset zero hpos hpow ho hpage
      hfits hcan hreach =>
      exact h.ofAligned hlayout hcan hpos hpow hwords rfl
  | freeLocal o p link ho => exact h.erase rfl
  | freeMt o link useDelayed mem ho => exact h.erase rfl
  | _ => exact h

end BlockHeap.AllAccepted

/-! ## Runs -/

def BlockHeap.Runs (b : BlockBuild) (check : Bool) :
    BlockHeap → BlockHeap → Prop :=
  Relation.ReflTransGen fun st st' => ∃ e, Step b check st e st'

/-- A run in which no `realloc` extends its page in place, and no address is
refused. -/
def BlockHeap.RunsUnextended (b : BlockBuild) (check : Bool) :
    BlockHeap → BlockHeap → Prop :=
  Relation.ReflTransGen fun st st' =>
    ∃ e, Step b check st e st' ∧ ¬Extends b check st e ∧ KeepsWords check e

/-- The blocks that the different kinds of free compute from `p`. -/
def BlockPage.freedBlocks (page : BlockPage) (p : ℕ) : List ℕ :=
  [page.blockOf p, page.ptrUnalign p, page.blockOf (page.ptrUnalign p)]

/-- The padding of every object decodes, its usable size is what was asked
for, and a free of it passes the check; so does the free of a block that waits
on the list of a heap. -/
def BlockHeap.NoAlarm (b : BlockBuild) (check : Bool) (st : BlockHeap) :
    Prop :=
  (∀ o ∈ st.live, ∃ page, st.pages o.page = some page ∧
    o.asked ≤ paUsableSize b check st.mem page o.ptr ∧
    ∀ block ∈ page.freedBlocks o.ptr,
      (pageDecodePadding b st.mem page block).ok = true ∧
      (verifyPadding b st.mem page block).ok = true) ∧
  ∀ d ∈ st.delayed, ∃ page, st.pages d.1 = some page ∧
    (verifyPadding b st.mem page d.2).ok = true

theorem PaddingOk.freedBlocks {o : HeapObject} (hb : b.padding = true)
    (h : PaddingOk b st) (ho : o ∈ st.live)
    (hpage : st.pages o.page = some page) {block : ℕ}
    (hblock : block ∈ page.freedBlocks o.ptr) : block = o.block := by
  obtain ⟨usable, huse, hlo, hhi, -⟩ := h.object ho hpage
  have hlt := huse.usable_lt hb h.layout
  unfold BlockPage.freedBlocks at hblock
  rw [List.mem_cons, List.mem_cons, List.mem_singleton] at hblock
  rcases hblock with rfl | rfl | rfl
  · exact h.blockOf_eq hb ho hpage (Or.inl rfl)
  · exact huse.ptrUnalign hlo (by omega)
  · exact h.blockOf_eq hb ho hpage (Or.inr rfl)

theorem PaddingOk.noAlarm (hb : b.padding = true) (h : PaddingOk b st)
    (haccepted : st.AllAccepted check) : st.NoAlarm b check := by
  constructor
  · intro o ho
    obtain ⟨page, usable, huse, hlo, hhi, -⟩ := h.live o ho
    refine ⟨page, huse.hpage, ?_, ?_⟩
    · rw [paUsableSize_accepted (haccepted o ho),
        h.usableSize_eq hb ho huse.hpage huse]
      omega
    · intro block hblock
      rw [h.freedBlocks hb ho huse.hpage hblock, huse.padded.decode]
      exact ⟨rfl, huse.padded.verify⟩
  · intro d hd
    obtain ⟨page, usable, huse, -⟩ := h.delayed d hd
    exact ⟨page, huse.hpage, huse.padded.verify⟩

section Aligned

def alarmBuild : BlockBuild := ⟨true, true, false⟩

def smallAlarmPage : BlockPage :=
  blockPageInit 33554944 1 1 1 96 false false ⟨1, 2⟩

def smallAlarmPages : BlockHeap :=
  { BlockHeap.start (fun _ => 0) with
    pages := Function.update (fun _ => none) 0 (some smallAlarmPage) }

/-- The heap after `pa_malloc_aligned_at(64, 16, 8)`. -/
def smallAlarmHeap : BlockHeap :=
  mallocAligned alarmBuild smallAlarmPages 0 smallAlarmPage
    (smallAlarmPage.blockAt 0) 64 16 8 false

theorem smallAlarmPages_step :
    Step alarmBuild true (BlockHeap.start fun _ => 0) .other
      smallAlarmPages := by
  apply Step.pageAlloc
  · rfl
  · decide
  · decide
  · decide
  · exact fun _ => ⟨by decide, by decide⟩
  · intro id' page _ hpage
    exact nomatch hpage

theorem smallAlarmHeap_step :
    Step alarmBuild true smallAlarmPages (.aligned 16 8) smallAlarmHeap := by
  apply Step.mallocAligned
  · decide
  · decide
  · exact ⟨rfl, ⟨0, by decide, rfl⟩, List.not_mem_nil, by decide, by decide,
      by decide⟩
  · exact fun hlarge => absurd hlarge (by decide)

end Aligned

/-! ## An extension -/

def alarmPage : BlockPage :=
  blockPageInit 33554944 1 1 4 200704 false false ⟨1, 2⟩

def alarmPages : BlockHeap :=
  { BlockHeap.start (fun _ => 0) with
    pages := Function.update (fun _ => none) 0 (some alarmPage) }

def alarmMalloc : BlockHeap :=
  malloc alarmBuild alarmPages 0 alarmPage (alarmPage.blockAt 0) 200000 false

def alarmObject : HeapObject :=
  ⟨0, alarmPage.blockAt 0, alarmPage.blockAt 0, 200000⟩

def alarmExtended : BlockHeap :=
  reallocExtend alarmBuild alarmMalloc alarmObject alarmPage 300000 false

theorem alarmPages_step :
    Step alarmBuild check (BlockHeap.start fun _ => 0) .other alarmPages := by
  apply Step.pageAlloc
  · rfl
  · decide
  · decide
  · decide
  · exact fun _ => ⟨by decide, by decide⟩
  · intro id' page _ hpage
    exact nomatch hpage

theorem alarmMalloc_step :
    Step alarmBuild check alarmPages .other alarmMalloc := by
  apply Step.malloc
  constructor
  · rfl
  · exact ⟨0, by decide, rfl⟩
  · exact List.not_mem_nil
  · decide
  · decide
  · decide

theorem alarmExtended_step :
    Step alarmBuild true alarmMalloc (.realloc alarmObject 300000 1 true)
      alarmExtended := by
  apply Step.reallocExtend
  · exact List.mem_singleton_self alarmObject
  · rfl
  · rfl
  · decide
  · decide +kernel
  · intro id' page hne hpage
    have hid : id' ≠ 0 := hne
    change Function.update (fun _ => none) 0 (some alarmPage) id' = _ at hpage
    rw [Function.update_of_ne hid] at hpage
    exact nomatch hpage

end Palloc
