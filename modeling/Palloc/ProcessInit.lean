import Palloc.PageQueue
import Mathlib.Algebra.Group.Nat.Defs

/-!
# Process initialization and the size table

Small requests find their page queue through `pa_size2bin_tab`, which
`pa_process_init` fills.  Three flags decide what a request does before:
whether the default heap of its thread is set, whether the process is
initialized, and which thread initializes it.  An allocation can arrive
between any two steps, also inside of the initialization itself.

Every thread has the list of the calls that it still has to make.  A step
makes the first one, which may put the calls of its body in front, and a
request puts `pa_malloc` in front.
-/

namespace Palloc

/-! ## The size table -/

/-- `PA_SIZE2BIN_LOOKUP_MAX`. -/
def size2binLookupMax : ℕ := 8192

/-- `_pa_size2bin_table_init`. -/
def size2binTableInit (table : ℕ → ℕ) : ℕ → ℕ :=
  fun s =>
    if s < size2binLookupMax then
      (if binHuge ≤ bin s then binHuge else bin s) % 256
    else table s

/-- `_pa_bin_fast`. -/
def binFast (table : ℕ → ℕ) (size : ℕ) : ℕ :=
  if size < size2binLookupMax then table size else bin size

/-! ## State -/

/-- `_pa_heap_default` of a thread: `_pa_heap_empty`, `_pa_heap_main`, or a
heap of the thread. -/
inductive DefaultHeap where
  | empty
  | main
  | own
  deriving Repr, DecidableEq

/-- `process_init_state`. -/
inductive ProcessInitState where
  | uninitialized
  | initializing
  | initialized
  deriving Repr, DecidableEq

inductive StartCall where
  | heapMainInit
  | optionsInit
  | setupAutoThreadDone
  /-- `_pa_prim_thread_init_auto_done`. -/
  | threadInitAutoDone
  | setDefaultDirect (heap : DefaultHeap)
  /-- `_pa_prim_thread_associate_default_heap`. -/
  | associateDefaultHeap
  | processInit
  /-- The loop at the end of `pa_process_init`. -/
  | processInitWait
  | detectCpuFeatures
  | osInit
  | size2binTableInit
  | statsReset
  | trackInit
  | reserveMemory
  /-- `pthread_create` of the background thread. -/
  | backgroundThread
  /-- `process_init_state` is set to 2. -/
  | processInitDone
  | threadInit
  | threadHeapInit
  /-- `_pa_allocator_init` and `_pa_random_reinit_if_weak`. -/
  | allocatorInit
  | malloc (size : ℕ)
  /-- `_pa_malloc_generic` after `pa_heap_get_default`. -/
  | mallocInitialized (size : ℕ)
  /-- `pa_page_queue`. -/
  | pageQueue (size : ℕ)
  deriving Repr, DecidableEq

structure Selection where
  thread : ℕ
  size : ℕ
  bin : ℕ
  deriving Repr, DecidableEq

structure StartUp where
  /-- `_pa_heap_main.thread_id`, which is set together with the cookie. -/
  mainThread : Option ℕ
  tlsInitialized : Bool
  initState : ProcessInitState
  /-- `process_init_thread`. -/
  initThread : Option ℕ
  table : ℕ → ℕ
  defaultHeap : ℕ → DefaultHeap
  calls : ℕ → List StartCall
  selections : List Selection

def StartUp.start : StartUp where
  mainThread := none
  tlsInitialized := false
  initState := .uninitialized
  initThread := none
  table := fun _ => 0
  defaultHeap := fun _ => .empty
  calls := fun _ => []
  selections := []

/-! ## Calls -/

/-- `_pa_auto_process_init`. -/
def autoProcessInit : List StartCall :=
  [.heapMainInit, .optionsInit, .setupAutoThreadDone, .processInit,
    .allocatorInit]

/-- `pa_process_init` from its exchange on. -/
def processInitBody : List StartCall :=
  [.heapMainInit, .setupAutoThreadDone, .detectCpuFeatures, .osInit,
    .heapMainInit, .size2binTableInit, .threadInit, .statsReset, .trackInit,
    .reserveMemory, .backgroundThread, .processInitDone]

namespace StartUp

/-- `_pa_is_main_thread`. -/
def isMainThread (st : StartUp) (t : ℕ) : Bool :=
  st.mainThread = none || st.mainThread = some t

/-- One call of thread `t`, and the calls that it makes; `memory` says whether
there is memory for the heap of a thread. -/
def exec (st : StartUp) (t : ℕ) (memory : Bool) :
    StartCall → StartUp × List StartCall
  | .heapMainInit =>
      ({ st with mainThread := some (st.mainThread.getD t) }, [])
  | .setupAutoThreadDone =>
      if st.tlsInitialized then (st, [])
      else
        ({ st with tlsInitialized := true },
          [.threadInitAutoDone, .setDefaultDirect .main])
  | .setDefaultDirect heap =>
      ({ st with defaultHeap := Function.update st.defaultHeap t heap },
        [.associateDefaultHeap])
  | .processInit =>
      if st.initState = .initialized then (st, [])
      else if st.initThread = some t then (st, [])
      else if st.initState = .uninitialized then
        ({ st with initState := .initializing, initThread := some t },
          processInitBody)
      else (st, [.processInitWait])
  | .size2binTableInit =>
      ({ st with table := Palloc.size2binTableInit st.table }, [])
  | .processInitDone => ({ st with initState := .initialized }, [])
  | .threadInit => (st, [.processInit, .threadHeapInit])
  | .threadHeapInit =>
      if st.defaultHeap t ≠ .empty then (st, [])
      else if st.isMainThread t then
        (st, [.heapMainInit, .setDefaultDirect .main])
      else if memory then (st, [.setDefaultDirect .own])
      else (st, [])
  | .malloc size =>
      if st.defaultHeap t = .empty then
        (st, [.threadInit, .mallocInitialized size])
      else (st, [.pageQueue size])
  | .mallocInitialized size =>
      if st.defaultHeap t = .empty then (st, []) else (st, [.pageQueue size])
  | .pageQueue size =>
      ({ st with
          selections := ⟨t, size, binFast st.table size⟩ :: st.selections },
        [])
  | .optionsInit | .threadInitAutoDone | .associateDefaultHeap
  | .processInitWait | .detectCpuFeatures | .osInit | .statsReset
  | .trackInit | .reserveMemory | .backgroundThread | .allocatorInit =>
      (st, [])

inductive Entry where
  | autoProcessInit
  | processInit
  | threadInit
  deriving Repr, DecidableEq

def Entry.calls : Entry → List StartCall
  | .autoProcessInit => Palloc.autoProcessInit
  | .processInit => [.processInit]
  | .threadInit => [.threadInit]

inductive Event where
  | exec (t : ℕ) (memory : Bool)
  | call (t : ℕ) (entry : Entry)
  /-- An allocation request of thread `t`, for an initialized heap or for its
  default heap. -/
  | request (t size : ℕ)
  deriving Repr, DecidableEq

/-- Thread `t` makes the calls of `pushed` next. -/
def push (st : StartUp) (t : ℕ) (pushed : List StartCall) : StartUp :=
  { st with calls := Function.update st.calls t (pushed ++ st.calls t) }

/-- Thread `t` makes its first call. -/
def advance (st : StartUp) (t : ℕ) (memory : Bool) : Option StartUp :=
  match st.calls t with
  | [] => none
  | call :: rest =>
      if call = .processInitWait ∧ st.initState ≠ .initialized then none
      else
        let (st', pushed) := st.exec t memory call
        some { st' with
          calls := Function.update st'.calls t (pushed ++ rest) }

def step (st : StartUp) : Event → Option StartUp
  | .exec t memory => st.advance t memory
  | .call t entry => some (st.push t entry.calls)
  | .request t size => some (st.push t [.malloc size])

/-- A run of the steps of `events`. -/
def run : StartUp → List Event → Option StartUp
  | st, [] => some st
  | st, event :: events =>
      match st.step event with
      | none => none
      | some st' => run st' events

end StartUp

/-! ## The filled table -/

/-- The queue of a size of more than eight words: its bin comes from the
highest bit of the last word and the two bits behind it. -/
theorem queueWords_bits : ∀ b < 13, 3 ≤ b → ∀ m < 8, 4 ≤ m →
    (b <<< 2) + (m &&& 3) - 3 < binHuge ∧
      queueBlockSize ((b <<< 2) + (m &&& 3) - 3) =
        (m + 1) * 2 ^ (b - 2) * intptrSize := by
  decide +kernel

theorem bin_medium {size : ℕ} (hsize : size ≤ mediumObjSizeMax) :
    bin size < binHuge ∧ size ≤ queueBlockSize (bin size) := by
  have hmax : mediumObjSizeMax = 65536 := rfl
  have hwords : mediumObjWsizeMax = 8192 := rfl
  have hw : wsizeFromSize size ≤ 8192 ∧
      size ≤ wsizeFromSize size * intptrSize := by
    unfold wsizeFromSize intptrSize
    omega
  unfold bin
  dsimp only
  generalize wsizeFromSize size = w at hw
  by_cases hsmall : w ≤ 8
  · rw [if_pos hsmall]
    have hall : ∀ w ≤ 8,
        (if w ≤ 1 then 1 else (w + 1) / 2 * 2) < binHuge ∧
          w * intptrSize ≤
            queueBlockSize (if w ≤ 1 then 1 else (w + 1) / 2 * 2) := by
      decide
    obtain ⟨hbin, hblock⟩ := hall w hsmall
    exact ⟨hbin, hw.2.trans hblock⟩
  · rw [if_neg hsmall, if_neg (by omega)]
    have hne : w - 1 ≠ 0 := by omega
    have hlow := Nat.log2_self_le hne
    have hhigh := Nat.lt_log2_self (n := w - 1)
    generalize Nat.log2 (w - 1) = b at hlow hhigh
    have hb3 : 3 ≤ b := by
      by_contra hlt
      have hpow : 2 ^ (b + 1) ≤ 2 ^ 3 :=
        Nat.pow_le_pow_right (by decide) (by omega)
      omega
    have hb13 : b < 13 := by
      by_contra hge
      have hpow : 2 ^ 13 ≤ 2 ^ b :=
        Nat.pow_le_pow_right (by decide) (not_lt.mp hge)
      omega
    have hsplit : 2 ^ b = 4 * 2 ^ (b - 2) := by
      rw [show 4 = 2 ^ 2 from rfl, ← Nat.pow_add]
      congr 1
      omega
    have hpos : 0 < 2 ^ (b - 2) := Nat.two_pow_pos _
    rw [Nat.shiftRight_eq_div_pow]
    have hm4 : 4 ≤ (w - 1) / 2 ^ (b - 2) := by
      rw [Nat.le_div_iff_mul_le hpos]
      omega
    have hm8 : (w - 1) / 2 ^ (b - 2) < 8 := by
      rw [Nat.div_lt_iff_lt_mul hpos]
      rw [Nat.pow_succ] at hhigh
      omega
    have hrest : w - 1 < ((w - 1) / 2 ^ (b - 2) + 1) * 2 ^ (b - 2) := by
      rw [Nat.mul_comm]
      exact Nat.lt_mul_div_succ _ hpos
    generalize (w - 1) / 2 ^ (b - 2) = m at hm4 hm8 hrest ⊢
    obtain ⟨hbin, hblock⟩ := queueWords_bits b hb13 hb3 m hm8 hm4
    refine ⟨hbin, hw.2.trans ?_⟩
    rw [hblock]
    apply Nat.mul_le_mul_right
    omega

/-- The entries that small requests read are the bins. -/
def TableFilled (table : ℕ → ℕ) : Prop :=
  ∀ size < size2binLookupMax, table size = bin size

theorem tableFilled_init (table : ℕ → ℕ) :
    TableFilled (size2binTableInit table) := by
  intro size hsize
  have hmedium : size ≤ mediumObjSizeMax :=
    hsize.le.trans (by decide)
  have hbin := (bin_medium hmedium).1
  have hsmall : bin size < 256 := hbin.trans (by decide)
  unfold size2binTableInit
  rw [if_pos hsize, if_neg (not_le.mpr hbin), Nat.mod_eq_of_lt hsmall]

structure Selection.Exact (s : Selection) : Prop where
  bin_eq : s.bin = Palloc.bin s.size
  enough : s.size ≤ mediumObjSizeMax → s.size ≤ queueBlockSize s.bin

theorem Selection.exact_of_filled {table : ℕ → ℕ} {t size : ℕ}
    (h : TableFilled table ∨ size2binLookupMax ≤ size) :
    Selection.Exact ⟨t, size, binFast table size⟩ := by
  have hbin : binFast table size = Palloc.bin size := by
    unfold binFast
    split
    · next hlt =>
        exact (h.resolve_right (not_le.mpr hlt)) size hlt
    · rfl
  refine ⟨hbin, fun hmedium => ?_⟩
  show size ≤ queueBlockSize (binFast table size)
  rw [hbin]
  exact (bin_medium hmedium).2

/-! ## Calls that reach a filled table -/

/-- Every small selection among the calls of a thread comes after a call that
fills the table or waits for it.  `mine` says that the thread initializes the
process, and `empty` that its default heap will still be unset. -/
def CallsCovered (mine : Prop) : Prop → List StartCall → Prop
  | _, [] => True
  | empty, call :: rest =>
      match call with
      | .size2binTableInit | .processInitWait => True
      | .processInitDone => False
      | .processInit => ¬mine ∨ CallsCovered mine empty rest
      | .threadInit => ¬mine ∨ CallsCovered mine False rest
      | .setupAutoThreadDone | .setDefaultDirect _ | .threadHeapInit =>
          CallsCovered mine False rest
      | .malloc size =>
          empty ∧ ¬mine ∨
            size2binLookupMax ≤ size ∧ CallsCovered mine False rest
      | .mallocInitialized size | .pageQueue size =>
          size2binLookupMax ≤ size ∧ CallsCovered mine empty rest
      | .heapMainInit | .optionsInit | .threadInitAutoDone
      | .associateDefaultHeap | .detectCpuFeatures | .osInit | .statsReset
      | .trackInit | .reserveMemory | .backgroundThread | .allocatorInit =>
          CallsCovered mine empty rest

namespace CallsCovered

variable {mine mine' empty empty' : Prop} {calls : List StartCall}

/-- A thread that does not initialize the process and whose heap is unset has
more ways to be covered. -/
theorem mono (hmine : mine' → mine) (hempty : empty → empty')
    (h : CallsCovered mine empty calls) : CallsCovered mine' empty' calls := by
  induction calls generalizing empty empty' with
  | nil => trivial
  | cons call rest ih =>
      cases call with
      | size2binTableInit => trivial
      | processInitWait => trivial
      | processInitDone => exact h
      | processInit =>
          exact h.imp (fun hnot hm => hnot (hmine hm)) (ih hempty)
      | threadInit =>
          exact h.imp (fun hnot hm => hnot (hmine hm)) (ih False.elim)
      | setupAutoThreadDone => exact ih False.elim h
      | setDefaultDirect heap => exact ih False.elim h
      | threadHeapInit => exact ih False.elim h
      | malloc size =>
          exact h.imp (fun hunset => ⟨hempty hunset.1,
            fun hm => hunset.2 (hmine hm)⟩)
            fun hlarge => ⟨hlarge.1, ih False.elim hlarge.2⟩
      | mallocInitialized size => exact ⟨h.1, ih hempty h.2⟩
      | pageQueue size => exact ⟨h.1, ih hempty h.2⟩
      | _ => exact ih hempty h

/-- For the thread that initializes the process the default heap does not
matter. -/
theorem ofMine (hmine : mine) (h : CallsCovered mine empty calls) :
    CallsCovered mine empty' calls := by
  induction calls generalizing empty empty' with
  | nil => trivial
  | cons call rest ih =>
      cases call with
      | size2binTableInit => trivial
      | processInitWait => trivial
      | processInitDone => exact h
      | processInit => exact h.imp id ih
      | threadInit => exact h.imp id ih
      | setupAutoThreadDone => exact ih h
      | setDefaultDirect heap => exact ih h
      | threadHeapInit => exact ih h
      | malloc size =>
          exact h.elim (fun hunset => absurd hmine hunset.2)
            fun hlarge => Or.inr ⟨hlarge.1, ih hlarge.2⟩
      | mallocInitialized size => exact ⟨h.1, ih h.2⟩
      | pageQueue size => exact ⟨h.1, ih h.2⟩
      | _ => exact ih h

theorem heapSet (h : CallsCovered mine empty calls) :
    ¬mine ∨ CallsCovered mine False calls := by
  by_cases hmine : mine
  · exact Or.inr (h.ofMine hmine)
  · exact Or.inl hmine

end CallsCovered

/-! ## One call -/

namespace StartUp

variable {st st' : StartUp} {t size : ℕ} {memory : Bool} {call : StartCall}
variable {rest : List StartCall}

structure ExecFrame (st : StartUp) (t : ℕ) (st' : StartUp) : Prop where
  calls : st'.calls = st.calls
  heaps : ∀ t', t' ≠ t → st'.defaultHeap t' = st.defaultHeap t'
  initThread : ∀ t', t' ≠ t → st'.initThread = some t' →
    st.initThread = some t'
  table : TableFilled st.table → TableFilled st'.table

theorem ExecFrame.of_eq (hcalls : st'.calls = st.calls)
    (hheaps : st'.defaultHeap = st.defaultHeap)
    (hthread : st'.initThread = st.initThread) (htable : st'.table = st.table) :
    ExecFrame st t st' := by
  refine ⟨hcalls, fun t' _ => by rw [hheaps], ?_, fun hfilled => ?_⟩
  · intro t' _ hsome
    rw [← hthread]
    exact hsome
  · rw [htable]
    exact hfilled

theorem exec_frame (st : StartUp) (t : ℕ) (memory : Bool)
    (call : StartCall) : ExecFrame st t (st.exec t memory call).1 := by
  cases call with
  | setupAutoThreadDone =>
      dsimp only [exec]
      split <;> exact .of_eq rfl rfl rfl rfl
  | setDefaultDirect heap =>
      exact ⟨rfl, fun t' hne => Function.update_of_ne hne _ _,
        fun _ _ hsome => hsome, fun hfilled => hfilled⟩
  | processInit =>
      dsimp only [exec]
      split
      · exact .of_eq rfl rfl rfl rfl
      · split
        · exact .of_eq rfl rfl rfl rfl
        · split
          · refine ⟨rfl, fun _ _ => rfl, ?_, fun hfilled => hfilled⟩
            intro t' hne hsome
            exact absurd (Option.some.inj hsome).symm hne
          · exact .of_eq rfl rfl rfl rfl
  | size2binTableInit =>
      exact ⟨rfl, fun _ _ => rfl, fun _ _ hsome => hsome,
        fun _ => tableFilled_init st.table⟩
  | threadHeapInit =>
      dsimp only [exec]
      split
      · exact .of_eq rfl rfl rfl rfl
      · split
        · exact .of_eq rfl rfl rfl rfl
        · split <;> exact .of_eq rfl rfl rfl rfl
  | malloc size =>
      dsimp only [exec]
      split <;> exact .of_eq rfl rfl rfl rfl
  | mallocInitialized size =>
      dsimp only [exec]
      split <;> exact .of_eq rfl rfl rfl rfl
  | _ => exact .of_eq rfl rfl rfl rfl

/-- The calls of `pa_process_init` after its exchange fill the table. -/
theorem processInitBody_covered (mine empty : Prop)
    (rest : List StartCall) : CallsCovered mine empty (processInitBody ++ rest) :=
  trivial

/-- A thread stays covered by its own calls, until the table is filled. -/
theorem exec_covered (memory : Bool)
    (hinit : st.initState = .initialized → TableFilled st.table)
    (hwait : call = .processInitWait → st.initState = .initialized)
    (h : CallsCovered (st.initThread = some t) (st.defaultHeap t = .empty)
      (call :: rest)) :
    TableFilled (st.exec t memory call).1.table ∨
      CallsCovered ((st.exec t memory call).1.initThread = some t)
        ((st.exec t memory call).1.defaultHeap t = .empty)
        ((st.exec t memory call).2 ++ rest) := by
  cases call with
  | setupAutoThreadDone =>
      right
      dsimp only [exec]
      split
      · exact CallsCovered.mono id False.elim h
      · exact h
  | setDefaultDirect heap =>
      right
      exact CallsCovered.mono id False.elim h
  | processInit =>
      dsimp only [exec]
      split
      · next hdone => exact Or.inl (hinit hdone)
      · split
        · next hmine =>
            exact Or.inr (h.resolve_left (not_not.mpr hmine))
        · split
          · exact Or.inr (processInitBody_covered _ _ rest)
          · exact Or.inr trivial
  | processInitWait => exact Or.inl (hinit (hwait rfl))
  | size2binTableInit => exact Or.inl (tableFilled_init st.table)
  | processInitDone => exact h.elim
  | threadHeapInit =>
      right
      dsimp only [exec]
      split
      · exact CallsCovered.mono id False.elim h
      · split
        · exact h
        · split
          · exact h
          · exact CallsCovered.mono id False.elim h
  | malloc size =>
      right
      dsimp only [exec]
      split
      · rcases h with hunset | hlarge
        · exact Or.inl hunset.2
        · exact Or.inr hlarge
      · next hset =>
          rcases h with hunset | hlarge
          · exact absurd hunset.1 hset
          · exact ⟨hlarge.1, CallsCovered.mono id False.elim hlarge.2⟩
  | mallocInitialized size =>
      right
      dsimp only [exec]
      split
      · exact h.2
      · exact h
  | pageQueue size => exact Or.inr h.2
  | _ => exact Or.inr h

/-! ## Runs -/

structure Ok (st : StartUp) : Prop where
  initialized : st.initState = .initialized → TableFilled st.table
  covered : TableFilled st.table ∨ ∀ t, CallsCovered (st.initThread = some t)
    (st.defaultHeap t = .empty) (st.calls t)
  exact : ∀ s ∈ st.selections, s.Exact

theorem start_ok : Ok start :=
  ⟨fun h => (nomatch h), Or.inr fun _ => trivial, fun _ h => (nomatch h)⟩

/-- The condition on a request: the table is filled, the size is not looked up
in it, or the thread has no heap yet and does not initialize the process. -/
def RequestOk (st : StartUp) : Event → Prop
  | .request t size =>
      TableFilled st.table ∨ size2binLookupMax ≤ size ∨
        st.defaultHeap t = .empty ∧ st.initThread ≠ some t
  | .exec _ _ => True
  | .call _ _ => True

theorem exec_initialized
    (hinit : st.initState = .initialized → TableFilled st.table)
    (h : TableFilled st.table ∨ CallsCovered (st.initThread = some t)
      (st.defaultHeap t = .empty) (call :: rest))
    (hdone : (st.exec t memory call).1.initState = .initialized) :
    TableFilled (st.exec t memory call).1.table := by
  have hkeep := (exec_frame st t memory call).table
  by_cases hold : st.initState = .initialized
  · exact hkeep (hinit hold)
  · cases call with
    | processInitDone =>
        exact hkeep (h.resolve_right fun hcovered => hcovered.elim)
    | setupAutoThreadDone =>
        dsimp only [exec] at hdone
        split at hdone <;> exact absurd hdone hold
    | processInit =>
        dsimp only [exec] at hdone
        rw [if_neg hold] at hdone
        split at hdone
        · exact absurd hdone hold
        · split at hdone
          · exact nomatch hdone
          · exact absurd hdone hold
    | threadHeapInit =>
        dsimp only [exec] at hdone
        split at hdone
        · exact absurd hdone hold
        · split at hdone
          · exact absurd hdone hold
          · split at hdone <;> exact absurd hdone hold
    | malloc size =>
        dsimp only [exec] at hdone
        split at hdone <;> exact absurd hdone hold
    | mallocInitialized size =>
        dsimp only [exec] at hdone
        split at hdone <;> exact absurd hdone hold
    | _ => exact absurd hdone hold

theorem exec_selections
    (hexact : ∀ s ∈ st.selections, s.Exact)
    (h : TableFilled st.table ∨ CallsCovered (st.initThread = some t)
      (st.defaultHeap t = .empty) (call :: rest)) :
    ∀ s ∈ (st.exec t memory call).1.selections, s.Exact := by
  cases call with
  | pageQueue size =>
      intro s hs
      rcases List.mem_cons.mp hs with rfl | hold
      · exact Selection.exact_of_filled (h.imp id fun hlarge => hlarge.1)
      · exact hexact s hold
  | setupAutoThreadDone =>
      dsimp only [exec]
      split <;> exact hexact
  | processInit =>
      dsimp only [exec]
      split
      · exact hexact
      · split
        · exact hexact
        · split <;> exact hexact
  | threadHeapInit =>
      dsimp only [exec]
      split
      · exact hexact
      · split
        · exact hexact
        · split <;> exact hexact
  | malloc size =>
      dsimp only [exec]
      split <;> exact hexact
  | mallocInitialized size =>
      dsimp only [exec]
      split <;> exact hexact
  | _ => exact hexact

namespace Ok

theorem advance (h : Ok st) (hstep : st.advance t memory = some st') :
    Ok st' := by
  unfold StartUp.advance at hstep
  split at hstep
  · exact nomatch hstep
  · next call rest hcalls =>
      split at hstep
      · exact nomatch hstep
      · next hready =>
          have hst' := (Option.some.inj hstep).symm
          have hframe := exec_frame st t memory call
          have hcovered : TableFilled st.table ∨
              CallsCovered (st.initThread = some t) (st.defaultHeap t = .empty)
                (call :: rest) :=
            h.covered.imp id fun hall => hcalls ▸ hall t
          have hwait : call = .processInitWait →
              st.initState = .initialized := by
            intro hcall
            by_contra hnot
            exact hready ⟨hcall, hnot⟩
          subst hst'
          refine ⟨exec_initialized h.initialized hcovered, ?_,
            exec_selections h.exact hcovered⟩
          rcases h.covered with hfilled | hall
          · exact Or.inl (hframe.table hfilled)
          · have hown := exec_covered memory h.initialized hwait
              (hcalls ▸ hall t)
            rcases hown with hfilled | hown
            · exact Or.inl hfilled
            · right
              intro t'
              show CallsCovered ((st.exec t memory call).1.initThread = some t')
                ((st.exec t memory call).1.defaultHeap t' = .empty)
                (Function.update (st.exec t memory call).1.calls t
                  ((st.exec t memory call).2 ++ rest) t')
              by_cases ht : t' = t
              · subst ht
                rw [Function.update_self]
                exact hown
              · rw [Function.update_of_ne ht, hframe.calls,
                  hframe.heaps t' ht]
                exact (hall t').mono (hframe.initThread t' ht) id

/-- Calls are put in front of the calls of a thread. -/
theorem push {pushed : List StartCall} (h : Ok st)
    (hcovered : TableFilled st.table ∨
      (CallsCovered (st.initThread = some t) (st.defaultHeap t = .empty)
          (st.calls t) →
        CallsCovered (st.initThread = some t) (st.defaultHeap t = .empty)
          (pushed ++ st.calls t))) :
    Ok (st.push t pushed) := by
  refine ⟨h.initialized, ?_, h.exact⟩
  rcases h.covered with hfilled | hall
  · exact Or.inl hfilled
  · rcases hcovered with hfilled | hpush
    · exact Or.inl hfilled
    · right
      intro t'
      show CallsCovered _ _ (Function.update st.calls t _ t')
      by_cases ht : t' = t
      · subst ht
        rw [Function.update_self]
        exact hpush (hall t')
      · rw [Function.update_of_ne ht]
        exact hall t'

theorem step {event : Event} (h : Ok st) (hok : st.RequestOk event)
    (hstep : st.step event = some st') : Ok st' := by
  cases event with
  | exec t memory => exact h.advance hstep
  | call t entry =>
      obtain rfl := Option.some.inj hstep
      apply h.push
      right
      intro hcovered
      cases entry with
      | autoProcessInit => exact hcovered.heapSet
      | processInit => exact Or.inr hcovered
      | threadInit => exact hcovered.heapSet
  | request t size =>
      obtain rfl := Option.some.inj hstep
      apply h.push
      rcases hok with hfilled | hlarge | hunset
      · exact Or.inl hfilled
      · right
        intro hcovered
        by_cases hmine : st.initThread = some t
        · exact Or.inr ⟨hlarge, hcovered.ofMine hmine⟩
        · by_cases hempty : st.defaultHeap t = .empty
          · exact Or.inl ⟨hempty, hmine⟩
          · exact Or.inr ⟨hlarge, hcovered.mono id hempty⟩
      · exact Or.inr fun _ => Or.inl hunset

end Ok

/-- All requests of a run meet the condition in the state they arrive in. -/
def RequestsOk : StartUp → List Event → Prop
  | _, [] => True
  | st, event :: events =>
      st.RequestOk event ∧
        ∀ st', st.step event = some st' → RequestsOk st' events

theorem Ok.run {events : List Event} (h : Ok st)
    (hok : st.RequestsOk events) (hrun : st.run events = some st') :
    Ok st' := by
  induction events generalizing st with
  | nil =>
      obtain rfl := Option.some.inj hrun
      exact h
  | cons event events ih =>
      obtain ⟨hrequest, hrest⟩ := hok
      unfold StartUp.run at hrun
      split at hrun
      · exact nomatch hrun
      · next st₁ hstep =>
          exact ih (h.step hrequest hstep) (hrest st₁ hstep) hrun

end StartUp

open StartUp

/-- Whatever the order of the start-up, as long as no small request arrives
on a thread that has its default heap, or that initializes the process,
before the table is filled, every queue is the right one. -/
theorem startup_selects_bin {events : List Event} {st : StartUp}
    (hok : StartUp.start.RequestsOk events)
    (hrun : StartUp.start.run events = some st) :
    ∀ s ∈ st.selections, s.Exact :=
  (start_ok.run hok hrun).exact

/-! ## Two runs -/

/-- A request before everything else, and the steps of its thread until it
selects a queue. -/
def earlyRequest : List Event :=
  .request 1 64 :: List.replicate 23 (.exec 1 true)

theorem requestsOk_exec {st : StartUp} {t n : ℕ} {memory : Bool} :
    st.RequestsOk (List.replicate n (.exec t memory)) := by
  induction n generalizing st with
  | zero => trivial
  | succ n ih => exact ⟨trivial, fun _ _ => ih⟩

theorem startup_selects_bin_early :
    ∃ st, StartUp.start.run earlyRequest = some st ∧
      st.selections = [⟨1, 64, 8⟩] ∧ ∀ s ∈ st.selections, s.Exact := by
  have hselections : (StartUp.start.run earlyRequest).map
      StartUp.selections = some [⟨1, 64, 8⟩] := by
    decide +kernel
  obtain ⟨st, hrun, hst⟩ := Option.map_eq_some_iff.mp hselections
  have hok : StartUp.start.RequestsOk earlyRequest :=
    ⟨Or.inr (Or.inr ⟨rfl, fun h => nomatch h⟩), fun _ _ => requestsOk_exec⟩
  exact ⟨st, hrun, hst, startup_selects_bin hok hrun⟩

/-- The loader runs `_pa_auto_process_init`, and `pthread_setspecific`
allocates. -/
def setspecificAllocates : List Event :=
  [.call 1 .autoProcessInit, .exec 1 true, .exec 1 true, .exec 1 true,
    .exec 1 true, .exec 1 true, .request 1 64, .exec 1 true, .exec 1 true]

/-- The default heap is set and the table is not filled: the request gets the
first queue, whose blocks have eight bytes. -/
theorem startup_selects_first_queue :
    ∃ st, StartUp.start.run setspecificAllocates = some st ∧
      st.selections = [⟨1, 64, 0⟩] ∧ queueBlockSize 0 = 8 ∧
      ¬∀ s ∈ st.selections, s.Exact := by
  have hselections : (StartUp.start.run setspecificAllocates).map
      StartUp.selections = some [⟨1, 64, 0⟩] := by
    decide +kernel
  obtain ⟨st, hrun, hst⟩ := Option.map_eq_some_iff.mp hselections
  refine ⟨st, hrun, hst, rfl, ?_⟩
  intro hexact
  have hfirst := hexact ⟨1, 64, 0⟩ (by rw [hst]; exact List.mem_cons_self)
  exact absurd hfirst.bin_eq (by decide)

end Palloc
