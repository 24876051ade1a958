import Palloc.AllocatorModel
import Palloc.BumpReservation
import Palloc.MachineWord
import Mathlib.Algebra.Group.Action.Defs

/-!
# The static arena

`pa_arena_static_zalloc` hands out pieces of a static buffer.  Threads share
one index: a thread loads it to see whether its request fits, adds the size of
the request together with the room for its alignment, and when the index went
past the end tries to set it back by a compare and swap.
-/

namespace Palloc

open MachineWord BumpReservation

/-- `PA_ARENA_STATIC_MAX`. -/
def arenaStaticMax : ℕ := intptrSize / 2 * 1024

/-! ## Calls -/

structure StaticCall where
  number : ℕ
  size : ℕ
  alignment : ℕ
  deriving DecidableEq

/-- `if (alignment < PA_MAX_ALIGN_SIZE) { alignment = PA_MAX_ALIGN_SIZE; }` -/
def StaticCall.alignUsed (call : StaticCall) : ℕ :=
  if call.alignment < maxAlignSize then maxAlignSize else call.alignment

/-- `size + alignment - 1`, as unsigned words. -/
def StaticCall.oversize (call : StaticCall) : ℕ :=
  (call.size + call.alignUsed + maxWord) % wordSize

/-- Where a thread is: before the addition, or before the compare and swap
that sets the index back. -/
inductive StaticPhase where
  | idle
  | add (call : StaticCall)
  | rollBack (call : StaticCall) (top oldtop : ℕ)

structure StaticBlock where
  call : StaticCall
  oldtop : ℕ
  deriving DecidableEq

/-- `_pa_align_up(oldtop, alignment)`: where the result is in the buffer. -/
def StaticBlock.start (block : StaticBlock) : ℕ :=
  wordAlignUp block.oldtop block.call.alignUsed

/-- `pa_arena_static_top`, the threads, and the results so far. -/
structure StaticState (threads : ℕ) where
  top : ℕ
  count : ℕ
  phase : Fin threads → StaticPhase
  blocks : List StaticBlock

inductive StaticAction (threads : ℕ) where
  | call (thread : Fin threads) (size alignment : ℕ)
  | next (thread : Fin threads)

namespace StaticState

variable {threads : ℕ}

def setPhase (st : StaticState threads) (thread : Fin threads)
    (phase : StaticPhase) : StaticState threads :=
  { st with phase := Function.update st.phase thread phase }

/-- The start of a call, up to the load of the index and the checks of what
was loaded. -/
def request (st : StaticState threads) (thread : Fin threads)
    (size alignment : ℕ) : StaticState threads :=
  let call : StaticCall := ⟨st.count, size, alignment⟩
  let st := { st with count := st.count + 1 }
  if size = 0 ∨ arenaStaticMax < size then st
  else if arenaStaticMax < (st.top + size) % wordSize then st
  else if arenaStaticMax < (st.top + call.oversize) % wordSize then st
  else st.setPhase thread (.add call)

def proceed (st : StaticState threads) (thread : Fin threads) :
    StaticState threads :=
  match st.phase thread with
  | .idle => st
  | .add call =>
    let oldtop := st.top
    let top := (oldtop + call.oversize) % wordSize
    let st := { st with top := top }
    if arenaStaticMax < top then
      st.setPhase thread (.rollBack call top oldtop)
    else
      { st.setPhase thread .idle with
        blocks := ⟨call, oldtop⟩ :: st.blocks }
  | .rollBack _ top oldtop =>
    { st.setPhase thread .idle with
      top := if st.top = top then oldtop else st.top }

def step (st : StaticState threads) :
    StaticAction threads → StaticState threads
  | .call thread size alignment =>
    match st.phase thread with
    | .idle => st.request thread size alignment
    | _ => st
  | .next thread => st.proceed thread

def run (st : StaticState threads) (actions : List (StaticAction threads)) :
    StaticState threads :=
  actions.foldl step st

def start (threads : ℕ) : StaticState threads :=
  ⟨0, 0, fun _ => .idle, []⟩

end StaticState

structure StaticBlocksDisjoint (blocks : List StaticBlock) : Prop where
  disjoint : blocks.Pairwise fun a b =>
    a.start + a.call.size ≤ b.start ∨ b.start + b.call.size ≤ a.start
  inside : ∀ b ∈ blocks, b.start + b.call.size ≤ arenaStaticMax
  aligned : ∀ b ∈ blocks, ∀ k base bufferAlign,
    b.call.alignment = 2 ^ k → 2 ^ k ∣ bufferAlign → bufferAlign ∣ base →
    2 ^ k ∣ base + b.start

/-- The alignments for which no sum of the call wraps. -/
def StaticAction.AlignmentFits {threads : ℕ} :
    StaticAction threads → Prop
  | .call _ _ alignment => alignment ≤ wordSize - arenaStaticMax
  | .next _ => True

/-! ## Sizes -/

structure StaticCall.Checked (call : StaticCall) : Prop where
  pos : 0 < call.size
  oversize_eq : call.oversize = call.size + call.alignUsed - 1
  oversize_le : call.oversize ≤ arenaStaticMax

namespace StaticCall.Checked

variable {call : StaticCall}

theorem alignUsed_pos (call : StaticCall) : 0 < call.alignUsed := by
  have hsixteen : 0 < maxAlignSize := by decide
  unfold StaticCall.alignUsed
  split <;> omega

theorem size_le_oversize (hchecked : call.Checked) :
    call.size ≤ call.oversize := by
  have hpos := alignUsed_pos call
  have heq := hchecked.oversize_eq
  omega

theorem oversize_pos (hchecked : call.Checked) : 0 < call.oversize :=
  hchecked.pos.trans_le hchecked.size_le_oversize

end StaticCall.Checked

/-- What the checks of a call establish when no sum of them wraps. -/
theorem StaticCall.checked_of_request {call : StaticCall} {top : ℕ}
    (hsize : ¬ (call.size = 0 ∨ arenaStaticMax < call.size))
    (htop : top + arenaStaticMax < wordSize)
    (hfits : ¬ arenaStaticMax < (top + call.size) % wordSize)
    (hover : ¬ arenaStaticMax < (top + call.oversize) % wordSize)
    (halign : call.alignment ≤ wordSize - arenaStaticMax) :
    call.Checked ∧ top + call.oversize ≤ arenaStaticMax := by
  have hmax : arenaStaticMax = 4096 := by decide
  have hword : wordSize = 18446744073709551616 := rfl
  have hmaxWord : maxWord = 18446744073709551615 := rfl
  have hused : call.alignUsed ≤ wordSize - arenaStaticMax := by
    unfold StaticCall.alignUsed
    have hsixteen : maxAlignSize = 16 := rfl
    split <;> omega
  have hpos := StaticCall.Checked.alignUsed_pos call
  rw [hmax] at hsize
  rw [hmax, hword] at htop hfits hover hused
  have hoversize : call.oversize = call.size + call.alignUsed - 1 := by
    unfold StaticCall.oversize
    rw [hmaxWord, hword]
    omega
  refine ⟨⟨by omega, hoversize, ?_⟩, ?_⟩ <;> omega

theorem StaticBlock.inside_range {block : StaticBlock}
    (hchecked : block.call.Checked)
    (hend : block.oldtop + block.call.oversize ≤ arenaStaticMax) :
    block.oldtop ≤ block.start ∧
      block.start + block.call.size ≤ block.oldtop + block.call.oversize := by
  have hpos := StaticCall.Checked.alignUsed_pos block.call
  have hmax : arenaStaticMax < wordSize := by decide
  have hover := hchecked.oversize_eq
  have hsize := hchecked.pos
  have hexact : block.start =
      exactAlignUp block.oldtop block.call.alignUsed :=
    wordAlignUp_of_lt (by omega)
  have hle := @le_exactAlignUp block.oldtop _ hpos
  have hlt := @exactAlignUp_lt block.oldtop _ hpos
  rw [hexact]
  omega

/-! ## The invariant -/

def StaticPhase.pending : StaticPhase → ℕ
  | .add call => call.oversize
  | _ => 0

@[simp] theorem StaticPhase.pending_idle :
    StaticPhase.idle.pending = 0 := rfl

@[simp] theorem StaticPhase.pending_add (call : StaticCall) :
    (StaticPhase.add call).pending = call.oversize := rfl

@[simp] theorem StaticPhase.pending_rollBack (call : StaticCall)
    (top oldtop : ℕ) : (StaticPhase.rollBack call top oldtop).pending = 0 :=
  rfl

def StaticPhase.call : StaticPhase → Option StaticCall
  | .idle => none
  | .add call => some call
  | .rollBack call _ _ => some call

/-- The ranges of the results and of the calls that still have to set the
index back, as reservations below the index. -/
structure StaticInvariant {threads : ℕ} (st : StaticState threads)
    (ranges : Reservations StaticCall) : Prop where
  top_eq : ranges.top = st.top
  sound : ranges.Sound 0 1 StaticCall.oversize
  blocks : ∀ b ∈ st.blocks, ranges.start b.call = some b.oldtop ∧
    b.call.Checked ∧ b.oldtop + b.call.oversize ≤ arenaStaticMax
  blocks_ne : st.blocks.Pairwise fun a b => a.call ≠ b.call
  adding : ∀ thread call, st.phase thread = .add call →
    call.Checked ∧ ranges.start call = none
  rolling : ∀ thread call top oldtop,
    st.phase thread = .rollBack call top oldtop →
    ranges.start call = some oldtop ∧ top = oldtop + call.oversize ∧
      arenaStaticMax < top
  held_lt : ∀ call, ranges.start call ≠ none → call.number < st.count
  call_lt : ∀ thread call, (st.phase thread).call = some call →
    call.number < st.count
  call_ne : ∀ thread other call,
    (st.phase thread).call = some call → (st.phase other).call = some call →
    thread = other
  room : st.top + ∑ thread, (st.phase thread).pending ≤
    arenaStaticMax * threads

namespace StaticState

variable {threads : ℕ}

theorem sum_pending_update (phase : Fin threads → StaticPhase)
    (thread : Fin threads) (new : StaticPhase) :
    (∑ t, (Function.update phase thread new t).pending) +
        (phase thread).pending =
      (∑ t, (phase t).pending) + new.pending := by
  have hsplit : ∀ f : Fin threads → ℕ,
      ∑ t, f t = f thread + ∑ t ∈ Finset.univ.erase thread, f t :=
    fun f => (Finset.add_sum_erase _ f (Finset.mem_univ thread)).symm
  have hrest : (∑ t ∈ Finset.univ.erase thread,
      (Function.update phase thread new t).pending) =
      ∑ t ∈ Finset.univ.erase thread, (phase t).pending := by
    apply Finset.sum_congr rfl
    intro t ht
    rw [Function.update_of_ne (Finset.ne_of_mem_erase ht)]
  rw [hsplit fun t => (Function.update phase thread new t).pending,
    hsplit fun t => (phase t).pending, hrest, Function.update_self]
  omega

end StaticState

theorem StaticInvariant.start (threads : ℕ) :
    StaticInvariant (StaticState.start threads) ⟨0, fun _ => none⟩ where
  top_eq := rfl
  sound := Reservations.Sound.initial (Nat.one_dvd 0)
  blocks := by simp [StaticState.start]
  blocks_ne := List.Pairwise.nil
  adding := by simp [StaticState.start]
  rolling := by simp [StaticState.start]
  held_lt := by simp
  call_lt := by simp [StaticState.start, StaticPhase.call]
  call_ne := by simp [StaticState.start, StaticPhase.call]
  room := by simp [StaticState.start, StaticPhase.pending]

namespace StaticInvariant

variable {threads : ℕ} {st : StaticState threads}
  {ranges : Reservations StaticCall}

theorem pending_le (hinv : StaticInvariant st ranges)
    (thread : Fin threads) :
    (st.phase thread).pending ≤ arenaStaticMax := by
  cases hphase : st.phase thread with
  | idle => exact Nat.zero_le _
  | add call => exact (hinv.adding thread call hphase).1.oversize_le
  | rollBack call top oldtop => exact Nat.zero_le _

theorem sum_pending_le (hinv : StaticInvariant st ranges)
    {thread : Fin threads} (hidle : (st.phase thread).pending = 0) :
    (∑ t, (st.phase t).pending) + arenaStaticMax ≤
      arenaStaticMax * threads := by
  have hsplit := Finset.add_sum_erase Finset.univ
    (fun t => (st.phase t).pending) (Finset.mem_univ thread)
  have hbound := Finset.sum_le_card_nsmul (Finset.univ.erase thread)
    (fun t => (st.phase t).pending) arenaStaticMax
    (fun t _ => hinv.pending_le t)
  rw [Finset.card_erase_of_mem (Finset.mem_univ thread), Finset.card_univ,
    Fintype.card_fin, smul_eq_mul] at hbound
  have hthreads : arenaStaticMax * threads =
      (threads - 1) * arenaStaticMax + arenaStaticMax := by
    have hlt := thread.isLt
    rw [← Nat.succ_mul, Nat.mul_comm]
    congr 1
    omega
  rw [← hsplit]
  simp only [hidle, zero_add]
  omega

theorem setPhase (hinv : StaticInvariant st ranges) {thread : Fin threads}
    {phase : StaticPhase}
    (hadding : ∀ call, phase = .add call →
      call.Checked ∧ ranges.start call = none)
    (hrolling : ∀ call top oldtop, phase = .rollBack call top oldtop →
      ranges.start call = some oldtop ∧ top = oldtop + call.oversize ∧
        arenaStaticMax < top)
    (hlt : ∀ call, phase.call = some call → call.number < st.count)
    (hne : ∀ other call, other ≠ thread → phase.call = some call →
      (st.phase other).call ≠ some call)
    (hroom : st.top + ∑ t, (Function.update st.phase thread phase t).pending ≤
      arenaStaticMax * threads) :
    StaticInvariant (st.setPhase thread phase) ranges where
  top_eq := hinv.top_eq
  sound := hinv.sound
  blocks := hinv.blocks
  blocks_ne := hinv.blocks_ne
  adding := by
    intro other call hphase
    by_cases heq : other = thread
    · subst heq
      simp only [StaticState.setPhase, Function.update_self] at hphase
      exact hadding call hphase
    · simp only [StaticState.setPhase, Function.update_of_ne heq] at hphase
      exact hinv.adding other call hphase
  rolling := by
    intro other call top oldtop hphase
    by_cases heq : other = thread
    · subst heq
      simp only [StaticState.setPhase, Function.update_self] at hphase
      exact hrolling call top oldtop hphase
    · simp only [StaticState.setPhase, Function.update_of_ne heq] at hphase
      exact hinv.rolling other call top oldtop hphase
  held_lt := hinv.held_lt
  call_lt := by
    intro other call hcall
    by_cases heq : other = thread
    · subst heq
      simp only [StaticState.setPhase, Function.update_self] at hcall
      exact hlt call hcall
    · simp only [StaticState.setPhase, Function.update_of_ne heq] at hcall
      exact hinv.call_lt other call hcall
  call_ne := by
    intro first second call hfirst hsecond
    by_cases heqf : first = thread <;> by_cases heqs : second = thread
    · rw [heqf, heqs]
    · subst heqf
      simp only [StaticState.setPhase, Function.update_self] at hfirst
      simp only [StaticState.setPhase, Function.update_of_ne heqs] at hsecond
      exact absurd hsecond (hne second call heqs hfirst)
    · subst heqs
      simp only [StaticState.setPhase, Function.update_self] at hsecond
      simp only [StaticState.setPhase, Function.update_of_ne heqf] at hfirst
      exact absurd hfirst (hne first call heqf hsecond)
    · simp only [StaticState.setPhase, Function.update_of_ne heqf] at hfirst
      simp only [StaticState.setPhase, Function.update_of_ne heqs] at hsecond
      exact hinv.call_ne first second call hfirst hsecond
  room := hroom

theorem setIdle (hinv : StaticInvariant st ranges) (thread : Fin threads) :
    StaticInvariant (st.setPhase thread .idle) ranges := by
  have hsum := StaticState.sum_pending_update st.phase thread .idle
  have hroom := hinv.room
  rw [StaticPhase.pending_idle] at hsum
  apply hinv.setPhase
  · intro call hphase
    contradiction
  · intro call top oldtop hphase
    contradiction
  · intro call hcall
    contradiction
  · intro other call _ hcall
    contradiction
  · omega

/-- The index is added to for a call. -/
theorem reserve (hinv : StaticInvariant st ranges) {call : StaticCall}
    (hchecked : call.Checked) (hfree : ranges.start call = none)
    (hnew : ∀ t, (st.phase t).call ≠ some call)
    (hlt : call.number < st.count)
    (hroom : st.top + call.oversize + ∑ t, (st.phase t).pending ≤
      arenaStaticMax * threads) :
    StaticInvariant { st with top := st.top + call.oversize }
      (ranges.reserve StaticCall.oversize call) where
  top_eq := by
    rw [Reservations.reserve, hinv.top_eq]
  sound := hinv.sound.reserve hchecked.oversize_pos (Nat.one_dvd _)
  blocks := by
    intro b hb
    obtain ⟨hstart, hrest⟩ := hinv.blocks b hb
    have hne : b.call ≠ call := by
      intro heq
      rw [heq, hfree] at hstart
      contradiction
    refine ⟨?_, hrest⟩
    rw [Reservations.reserve_start, Function.update_of_ne hne]
    exact hstart
  blocks_ne := hinv.blocks_ne
  adding := by
    intro t other hphase
    obtain ⟨hother, hnone⟩ := hinv.adding t other hphase
    have hne : other ≠ call := by
      intro heq
      apply hnew t
      rw [hphase, heq]
      rfl
    refine ⟨hother, ?_⟩
    rw [Reservations.reserve_start, Function.update_of_ne hne]
    exact hnone
  rolling := by
    intro t other top oldtop hphase
    obtain ⟨hstart, hrest⟩ := hinv.rolling t other top oldtop hphase
    have hne : other ≠ call := by
      intro heq
      rw [heq, hfree] at hstart
      contradiction
    refine ⟨?_, hrest⟩
    rw [Reservations.reserve_start, Function.update_of_ne hne]
    exact hstart
  held_lt := by
    intro other hheld
    by_cases heq : other = call
    · rw [heq]
      exact hlt
    · rw [Reservations.reserve_start, Function.update_of_ne heq] at hheld
      exact hinv.held_lt other hheld
  call_lt := hinv.call_lt
  call_ne := hinv.call_ne
  room := hroom

/-- A call whose range is inside of the buffer succeeds. -/
theorem addBlock (hinv : StaticInvariant st ranges) {call : StaticCall}
    {oldtop : ℕ} (hchecked : call.Checked)
    (hheld : ranges.start call = some oldtop)
    (hend : oldtop + call.oversize ≤ arenaStaticMax)
    (hnew : ∀ b ∈ st.blocks, call ≠ b.call) :
    StaticInvariant { st with blocks := ⟨call, oldtop⟩ :: st.blocks }
      ranges where
  top_eq := hinv.top_eq
  sound := hinv.sound
  blocks := by
    intro b hb
    rcases List.mem_cons.mp hb with rfl | hb
    · exact ⟨hheld, hchecked, hend⟩
    · exact hinv.blocks b hb
  blocks_ne := List.pairwise_cons.mpr ⟨hnew, hinv.blocks_ne⟩
  adding := hinv.adding
  rolling := hinv.rolling
  held_lt := hinv.held_lt
  call_lt := hinv.call_lt
  call_ne := hinv.call_ne
  room := hinv.room

/-- A call that went past the end gives its range up. -/
theorem giveBack (hinv : StaticInvariant st ranges) {call : StaticCall}
    {oldtop : ℕ} (hheld : ranges.start call = some oldtop)
    (hpast : arenaStaticMax < oldtop + call.oversize)
    (hnew : ∀ t, (st.phase t).call ≠ some call) :
    StaticInvariant
      { st with
        top := if st.top = oldtop + call.oversize then oldtop else st.top }
      (ranges.giveBack StaticCall.oversize call oldtop) where
  top_eq := by
    rw [Reservations.giveBack, hinv.top_eq]
  sound := hinv.sound.giveBack hheld
  blocks := by
    intro b hb
    obtain ⟨hstart, hchecked, hend⟩ := hinv.blocks b hb
    have hne : b.call ≠ call := by
      intro heq
      rw [heq, hheld] at hstart
      rw [heq, ← Option.some.inj hstart] at hend
      omega
    refine ⟨?_, hchecked, hend⟩
    rw [Reservations.giveBack_start, Function.update_of_ne hne]
    exact hstart
  blocks_ne := hinv.blocks_ne
  adding := by
    intro t other hphase
    obtain ⟨hother, hnone⟩ := hinv.adding t other hphase
    refine ⟨hother, ?_⟩
    rw [Reservations.giveBack_start, Function.update_apply]
    split
    · rfl
    · exact hnone
  rolling := by
    intro t other top start hphase
    obtain ⟨hstart, hrest⟩ := hinv.rolling t other top start hphase
    have hne : other ≠ call := by
      intro heq
      apply hnew t
      rw [hphase, heq]
      rfl
    refine ⟨?_, hrest⟩
    rw [Reservations.giveBack_start, Function.update_of_ne hne]
    exact hstart
  held_lt := by
    intro other hother
    rw [Reservations.giveBack_start, Function.update_apply] at hother
    split at hother
    · exact absurd rfl hother
    · exact hinv.held_lt other hother
  call_lt := hinv.call_lt
  call_ne := hinv.call_ne
  room := by
    have hroom := hinv.room
    simp only
    split <;> omega

theorem addCount (hinv : StaticInvariant st ranges) :
    StaticInvariant { st with count := st.count + 1 } ranges where
  top_eq := hinv.top_eq
  sound := hinv.sound
  blocks := hinv.blocks
  blocks_ne := hinv.blocks_ne
  adding := hinv.adding
  rolling := hinv.rolling
  held_lt := fun call hheld => Nat.lt_succ_of_lt (hinv.held_lt call hheld)
  call_lt := fun t call hcall => Nat.lt_succ_of_lt (hinv.call_lt t call hcall)
  call_ne := hinv.call_ne
  room := hinv.room

theorem top_lt (hinv : StaticInvariant st ranges)
    (hthreads : threads + 1 < 2 ^ 52) :
    st.top + arenaStaticMax < wordSize := by
  have hmax : arenaStaticMax = 4096 := by decide
  have hword : wordSize = 18446744073709551616 := rfl
  have hroom := hinv.room
  rw [hmax] at hroom
  rw [hmax, hword]
  omega

theorem request (hinv : StaticInvariant st ranges) {thread : Fin threads}
    {size alignment : ℕ} (hidle : st.phase thread = .idle)
    (hthreads : threads + 1 < 2 ^ 52)
    (halign : alignment ≤ wordSize - arenaStaticMax) :
    StaticInvariant (st.request thread size alignment) ranges := by
  have hcount := hinv.addCount
  unfold StaticState.request
  simp only
  split
  · exact hcount
  · next hsize =>
    split
    · exact hcount
    · next hfits =>
      split
      · exact hcount
      · next hover =>
        obtain ⟨hchecked, hend⟩ :=
          @StaticCall.checked_of_request ⟨st.count, size, alignment⟩ _
            hsize (hinv.top_lt hthreads) hfits hover halign
        have hpending : (st.phase thread).pending = 0 := by
          rw [hidle]
          rfl
        have hothers := hinv.sum_pending_le hpending
        have hsum := StaticState.sum_pending_update st.phase thread
          (.add ⟨st.count, size, alignment⟩)
        apply hcount.setPhase
        · intro call hcall
          obtain rfl := StaticPhase.add.inj hcall
          refine ⟨hchecked, ?_⟩
          by_contra hheld
          exact lt_irrefl _ (hinv.held_lt _ hheld)
        · intro call top oldtop hphase
          cases hphase
        · intro call hcall
          obtain rfl := Option.some.inj hcall
          exact Nat.lt_succ_self st.count
        · intro other call _ hcall hother
          obtain rfl := Option.some.inj hcall
          exact lt_irrefl _ (hinv.call_lt other _ hother)
        · rw [StaticPhase.pending_add] at hsum
          change st.top + ∑ t, (Function.update st.phase thread _ t).pending ≤ _
          omega

theorem idle_call_ne (hinv : StaticInvariant st ranges)
    {thread : Fin threads} {call : StaticCall}
    (hcall : (st.phase thread).call = some call) (t : Fin threads) :
    ((st.setPhase thread .idle).phase t).call ≠ some call := by
  intro ht
  by_cases heq : t = thread
  · subst heq
    simp [StaticState.setPhase, StaticPhase.call] at ht
  · simp only [StaticState.setPhase, Function.update_of_ne heq] at ht
    exact heq (hinv.call_ne t thread call ht hcall)

theorem proceed (hinv : StaticInvariant st ranges) (thread : Fin threads)
    (hthreads : threads + 1 < 2 ^ 52) :
    ∃ ranges', StaticInvariant (st.proceed thread) ranges' := by
  have hidleInv := hinv.setIdle thread
  unfold StaticState.proceed
  cases hphase : st.phase thread with
  | idle => exact ⟨ranges, hinv⟩
  | add call =>
    obtain ⟨hchecked, hfree⟩ := hinv.adding thread call hphase
    have hcall : (st.phase thread).call = some call := by
      rw [hphase]
      rfl
    have hnew := hinv.idle_call_ne hcall
    have hsum := StaticState.sum_pending_update st.phase thread .idle
    have hroom := hinv.room
    rw [hphase, StaticPhase.pending_add, StaticPhase.pending_idle] at hsum
    have hwrap : (st.top + call.oversize) % wordSize =
        st.top + call.oversize := by
      apply Nat.mod_eq_of_lt
      have htop := hinv.top_lt hthreads
      have hle := hchecked.oversize_le
      omega
    have hreserved := hidleInv.reserve hchecked hfree hnew
      (hinv.call_lt thread call hcall)
      (by
        change st.top + _ + ∑ t, (Function.update st.phase thread .idle t).pending ≤ _
        omega)
    have hheld : (ranges.reserve StaticCall.oversize call).start call =
        some st.top := by
      rw [Reservations.reserve_start, Function.update_self, hinv.top_eq]
    simp only [hwrap]
    refine ⟨ranges.reserve StaticCall.oversize call, ?_⟩
    split
    · next hpast =>
      have hstate : ({ st with top := st.top + call.oversize }).setPhase
          thread (.rollBack call (st.top + call.oversize) st.top) =
          ({ st.setPhase thread .idle with
            top := st.top + call.oversize }).setPhase thread
              (.rollBack call (st.top + call.oversize) st.top) := by
        simp [StaticState.setPhase]
      rw [hstate]
      apply hreserved.setPhase
      · intro other hother
        cases hother
      · intro other top oldtop hother
        cases hother
        exact ⟨hheld, rfl, hpast⟩
      · intro other hother
        obtain rfl := Option.some.inj hother
        exact hinv.call_lt thread call hcall
      · intro t other _ hother ht
        obtain rfl := Option.some.inj hother
        exact hnew t ht
      · have hroomNow := hreserved.room
        have hsumNow := StaticState.sum_pending_update
          (st.setPhase thread .idle).phase thread
          (.rollBack call (st.top + call.oversize) st.top)
        rw [StaticPhase.pending_rollBack] at hsumNow
        change _ + ∑ t, (Function.update (st.setPhase thread .idle).phase
          thread _ t).pending ≤ _
        simp only at hroomNow ⊢
        omega
    · next hend =>
      refine hreserved.addBlock hchecked hheld (not_lt.mp hend) ?_
      intro b hb heq
      have hstart := (hinv.blocks b hb).1
      rw [← heq, hfree] at hstart
      cases hstart
  | rollBack call top oldtop =>
    obtain ⟨hheld, htop, hpast⟩ :=
      hinv.rolling thread call top oldtop hphase
    have hcall : (st.phase thread).call = some call := by
      rw [hphase]
      rfl
    rw [htop] at hpast ⊢
    exact ⟨_, hidleInv.giveBack hheld hpast (hinv.idle_call_ne hcall)⟩

theorem step (hinv : StaticInvariant st ranges)
    {action : StaticAction threads} (hthreads : threads + 1 < 2 ^ 52)
    (halign : action.AlignmentFits) :
    ∃ ranges', StaticInvariant (st.step action) ranges' := by
  cases action with
  | call thread size alignment =>
    simp only [StaticState.step]
    split
    · next hidle => exact ⟨ranges, hinv.request hidle hthreads halign⟩
    · exact ⟨ranges, hinv⟩
  | next thread => exact hinv.proceed thread hthreads

theorem run {actions : List (StaticAction threads)}
    (hinv : StaticInvariant st ranges) (hthreads : threads + 1 < 2 ^ 52)
    (halign : ∀ action ∈ actions, action.AlignmentFits) :
    ∃ ranges', StaticInvariant (st.run actions) ranges' := by
  induction actions generalizing st ranges with
  | nil => exact ⟨ranges, hinv⟩
  | cons action actions ih =>
    obtain ⟨next, hnext⟩ :=
      hinv.step hthreads (halign action List.mem_cons_self)
    exact ih hnext fun other hother =>
      halign other (List.mem_cons_of_mem action hother)

theorem blocksDisjoint (hinv : StaticInvariant st ranges) :
    StaticBlocksDisjoint st.blocks where
  disjoint := by
    apply hinv.blocks_ne.imp_of_mem
    intro a b ha hb hne
    obtain ⟨hstarta, hcheckeda, henda⟩ := hinv.blocks a ha
    obtain ⟨hstartb, hcheckedb, hendb⟩ := hinv.blocks b hb
    have hina := StaticBlock.inside_range hcheckeda henda
    have hinb := StaticBlock.inside_range hcheckedb hendb
    have hranges := hinv.sound.disjoint a.call b.call a.oldtop b.oldtop hne
      hstarta hstartb
    omega
  inside := by
    intro b hb
    obtain ⟨_, hchecked, hend⟩ := hinv.blocks b hb
    have hin := StaticBlock.inside_range hchecked hend
    omega
  aligned := by
    intro b _ k base bufferAlign halign hbuffer hbase
    have hused : 2 ^ k ∣ b.call.alignUsed := by
      unfold StaticCall.alignUsed
      split
      · next hsmall =>
        -- A power of two below sixteen divides sixteen.
        have hsixteen : maxAlignSize = 2 ^ 4 := rfl
        rw [hsixteen] at hsmall ⊢
        rw [halign, Nat.pow_lt_pow_iff_right (by decide)] at hsmall
        exact Nat.pow_dvd_pow 2 hsmall.le
      · rw [halign]
    have hstart : 2 ^ k ∣ b.start :=
      hused.trans (dvd_wordAlignUp b.oldtop b.call.alignUsed)
    exact Nat.dvd_add (hbuffer.trans hbase) hstart

end StaticInvariant

/-- The results of every run are disjoint, inside of the buffer and aligned,
when no alignment and no number of threads makes a sum wrap. -/
theorem static_blocks_disjoint {threads : ℕ}
    (actions : List (StaticAction threads)) (hthreads : threads + 1 < 2 ^ 52)
    (halign : ∀ action ∈ actions, action.AlignmentFits) :
    StaticBlocksDisjoint ((StaticState.start threads).run actions).blocks := by
  obtain ⟨ranges, hinv⟩ :=
    (StaticInvariant.start threads).run hthreads halign
  exact hinv.blocksDisjoint

/-- Two threads load the same index before either adds to it. -/
theorem static_blocks_disjoint_twoThreads :
    StaticBlocksDisjoint
      ((StaticState.start 2).run
        [.call 0 256 16, .call 1 64 64, .next 1, .next 0]).blocks := by
  have hmax : wordSize - arenaStaticMax = 18446744073709547520 := by decide
  have hfits : ∀ action ∈ ([.call 0 256 16, .call 1 64 64, .next 1,
      .next 0] : List (StaticAction 2)), action.AlignmentFits := by
    simp [StaticAction.AlignmentFits, hmax]
  exact static_blocks_disjoint _ (by omega) hfits

/-! ## Where a sum wraps -/

namespace StaticState

variable {threads : ℕ} {st : StaticState threads}

theorem run_append (st : StaticState threads)
    (actions more : List (StaticAction threads)) :
    st.run (actions ++ more) = (st.run actions).run more :=
  List.foldl_append

theorem oversize_whole (number : ℕ) :
    (⟨number, 4081, 16⟩ : StaticCall).oversize = arenaStaticMax := by
  change (4081 + 16 + maxWord) % wordSize = arenaStaticMax
  decide

theorem step_call_whole {thread : Fin threads} (htop : st.top = 0)
    (hidle : st.phase thread = .idle) :
    st.step (.call thread 4081 16) =
      ({ st with count := st.count + 1 }).setPhase thread
        (.add ⟨st.count, 4081, 16⟩) := by
  have hsize : ¬ (4081 = 0 ∨ arenaStaticMax < 4081) := by decide
  have hfits : ¬ arenaStaticMax < (0 + 4081) % wordSize := by decide
  have hover : ¬ arenaStaticMax < (0 + arenaStaticMax) % wordSize := by decide
  simp only [step, hidle, request, htop, oversize_whole, if_neg hsize,
    if_neg hfits, if_neg hover]

/-- Threads that all load the empty index. -/
theorem run_calls {l : List (Fin threads)} (hnodup : l.Nodup)
    (htop : st.top = 0) (hidle : ∀ t ∈ l, st.phase t = .idle) :
    (st.run (l.map fun t => .call t 4081 16)).top = 0 ∧
      (∀ t ∈ l, ∃ call,
        (st.run (l.map fun t => .call t 4081 16)).phase t = .add call ∧
          call.oversize = arenaStaticMax) ∧
      ∀ t, t ∉ l →
        (st.run (l.map fun t => .call t 4081 16)).phase t = st.phase t := by
  induction l generalizing st with
  | nil => exact ⟨htop, by simp, fun t _ => rfl⟩
  | cons thread l ih =>
    obtain ⟨hnot, hnodup⟩ := List.nodup_cons.mp hnodup
    have hstep := step_call_whole htop (hidle thread List.mem_cons_self)
    have hother : ∀ t, t ≠ thread →
        (st.step (.call thread 4081 16)).phase t = st.phase t := by
      intro t ht
      rw [hstep]
      exact Function.update_of_ne ht _ _
    have hself : (st.step (.call thread 4081 16)).phase thread =
        .add ⟨st.count, 4081, 16⟩ := by
      rw [hstep]
      exact Function.update_self _ _ _
    have htopNext : (st.step (.call thread 4081 16)).top = 0 := by
      rw [hstep]
      exact htop
    have hidleNext : ∀ t ∈ l,
        (st.step (.call thread 4081 16)).phase t = .idle := by
      intro t ht
      rw [hother t (fun heq => hnot (heq ▸ ht))]
      exact hidle t (List.mem_cons_of_mem thread ht)
    obtain ⟨htopRun, hadd, hkeep⟩ := ih hnodup htopNext hidleNext
    refine ⟨htopRun, ?_, ?_⟩
    · intro t ht
      rcases List.mem_cons.mp ht with rfl | ht
      · exact ⟨_, (hkeep t hnot).trans hself, oversize_whole _⟩
      · exact hadd t ht
    · intro t ht
      obtain ⟨hne, hmem⟩ := not_or.mp (mt List.mem_cons.mpr ht)
      exact (hkeep t hmem).trans (hother t hne)

/-- Threads that all add. -/
theorem run_nexts {l : List (Fin threads)} (hnodup : l.Nodup)
    (htop : st.top < wordSize)
    (hadd : ∀ t ∈ l, ∃ call, st.phase t = .add call ∧
      call.oversize = arenaStaticMax) :
    (st.run (l.map .next)).top =
        (st.top + arenaStaticMax * l.length) % wordSize ∧
      ∀ t, t ∉ l → (st.run (l.map .next)).phase t = st.phase t := by
  induction l generalizing st with
  | nil =>
    refine ⟨?_, fun t _ => rfl⟩
    exact (Nat.mod_eq_of_lt htop).symm
  | cons thread l ih =>
    obtain ⟨hnot, hnodup⟩ := List.nodup_cons.mp hnodup
    obtain ⟨call, hphase, hover⟩ := hadd thread List.mem_cons_self
    have hstep : (st.step (.next thread)).top =
          (st.top + arenaStaticMax) % wordSize ∧
        ∀ t, t ≠ thread →
          (st.step (.next thread)).phase t = st.phase t := by
      simp only [step, proceed, hphase, hover]
      split
      · refine ⟨rfl, ?_⟩
        intro t ht
        simp [setPhase, Function.update_of_ne ht]
      · refine ⟨rfl, ?_⟩
        intro t ht
        simp [setPhase, Function.update_of_ne ht]
    have htopNext : (st.step (.next thread)).top < wordSize := by
      rw [hstep.1]
      exact Nat.mod_lt _ (by decide)
    have haddNext : ∀ t ∈ l, ∃ call,
        (st.step (.next thread)).phase t = .add call ∧
          call.oversize = arenaStaticMax := by
      intro t ht
      rw [hstep.2 t (fun heq => hnot (heq ▸ ht))]
      exact hadd t (List.mem_cons_of_mem thread ht)
    obtain ⟨htopRun, hkeep⟩ := ih hnodup htopNext haddNext
    refine ⟨?_, ?_⟩
    · have hsum : st.top + arenaStaticMax + arenaStaticMax * l.length =
          st.top + (arenaStaticMax * l.length + arenaStaticMax) := by
        omega
      change (run _ (l.map .next)).top = _
      rw [htopRun, hstep.1, Nat.mod_add_mod, List.length_cons, Nat.mul_succ,
        hsum]
    · intro t ht
      obtain ⟨hne, hmem⟩ := not_or.mp (mt List.mem_cons.mpr ht)
      exact (hkeep t hmem).trans (hstep.2 t hne)

/-- The first of the threads succeeds and leaves its call. -/
theorem step_next_first {thread : Fin threads} {call : StaticCall}
    (htop : st.top = 0) (hphase : st.phase thread = .add call)
    (hover : call.oversize = arenaStaticMax) :
    (st.step (.next thread)).top = arenaStaticMax ∧
      (st.step (.next thread)).phase =
        Function.update st.phase thread .idle := by
  have hwrap : (0 + arenaStaticMax) % wordSize = arenaStaticMax := by decide
  simp only [step, proceed, hphase, hover, htop, hwrap, lt_irrefl, if_false,
    setPhase]
  exact ⟨trivial, trivial⟩

/-- An idle thread asks for the whole buffer while the index is just below
the maximal word: no check notices it. -/
theorem blocks_of_wrap {thread : Fin threads}
    (htop : st.top = wordSize - arenaStaticMax)
    (hidle : st.phase thread = .idle) :
    ⟨⟨st.count, arenaStaticMax, 16⟩, wordSize - arenaStaticMax⟩ ∈
      ((st.step (.call thread arenaStaticMax 16)).step
        (.next thread)).blocks := by
  have hover : ∀ number,
      (⟨number, arenaStaticMax, 16⟩ : StaticCall).oversize =
        arenaStaticMax + 15 := by
    intro number
    change (arenaStaticMax + 16 + maxWord) % wordSize = _
    decide
  have hsize : ¬ (arenaStaticMax = 0 ∨ arenaStaticMax < arenaStaticMax) := by
    decide
  have hfits : ¬ arenaStaticMax <
      (wordSize - arenaStaticMax + arenaStaticMax) % wordSize := by
    decide
  have hwrap : ¬ arenaStaticMax <
      (wordSize - arenaStaticMax + (arenaStaticMax + 15)) % wordSize := by
    decide
  have hcall : st.step (.call thread arenaStaticMax 16) =
      ({ st with count := st.count + 1 }).setPhase thread
        (.add ⟨st.count, arenaStaticMax, 16⟩) := by
    simp only [step, hidle, request, htop, hover, if_neg hsize, if_neg hfits,
      if_neg hwrap]
  rw [hcall]
  simp only [step, proceed, setPhase, Function.update_self, htop, hover,
    if_neg hwrap]
  exact List.mem_cons_self

/-- With threads enough to bring the index close to the maximal word there is
a run in which a result is outside of the buffer. -/
theorem exists_run_outside {n : ℕ}
    (hn : arenaStaticMax * (n + 1) + arenaStaticMax = wordSize) :
    ∃ actions : List (StaticAction (n + 1)),
      (∀ action ∈ actions, action.AlignmentFits) ∧
        ¬ StaticBlocksDisjoint ((start (n + 1)).run actions).blocks := by
  have hmax : 16 ≤ wordSize - arenaStaticMax := by decide
  have hpast : ¬ wordSize - arenaStaticMax + arenaStaticMax ≤
      arenaStaticMax := by decide
  have hstart : wordAlignUp (wordSize - arenaStaticMax) 16 =
      wordSize - arenaStaticMax := by decide
  have hlt : arenaStaticMax < wordSize := by decide
  have hnodup := List.nodup_finRange (n + 1)
  obtain ⟨hfirst, htail⟩ :
      0 ∉ (List.finRange n).map Fin.succ ∧
        ((List.finRange n).map Fin.succ).Nodup := by
    rw [List.finRange_succ] at hnodup
    exact List.nodup_cons.mp hnodup
  -- Every thread loads the empty index, then every thread adds.
  obtain ⟨htop, hadd, _⟩ := @run_calls _ (start (n + 1)) _ hnodup rfl
    (fun _ _ => rfl)
  obtain ⟨call, hphase, hover⟩ := hadd 0 (List.mem_finRange 0)
  obtain ⟨htopFirst, hphaseFirst⟩ := step_next_first htop hphase hover
  have haddTail : ∀ t ∈ (List.finRange n).map Fin.succ, ∃ call,
      (((start (n + 1)).run ((List.finRange (n + 1)).map fun t =>
        .call t 4081 16)).step (.next 0)).phase t = .add call ∧
        call.oversize = arenaStaticMax := by
    intro t ht
    have hne : t ≠ 0 := fun heq => hfirst (heq ▸ ht)
    rw [hphaseFirst, Function.update_of_ne hne]
    exact hadd t (List.mem_finRange t)
  obtain ⟨htopAll, hkeep⟩ := run_nexts htail (htopFirst ▸ hlt) haddTail
  have hidle := hkeep 0 hfirst
  rw [hphaseFirst, Function.update_self] at hidle
  rw [htopFirst, List.length_map, List.length_finRange] at htopAll
  have htopLast : (arenaStaticMax + arenaStaticMax * n) % wordSize =
      wordSize - arenaStaticMax := by
    have hsum : arenaStaticMax + arenaStaticMax * n =
        wordSize - arenaStaticMax := by
      rw [Nat.mul_succ] at hn
      omega
    rw [hsum]
    decide
  rw [htopLast] at htopAll
  have hmem := blocks_of_wrap htopAll hidle
  refine ⟨((List.finRange (n + 1)).map fun t => .call t 4081 16) ++
    (.next 0 :: ((List.finRange n).map Fin.succ).map .next) ++
      [.call 0 arenaStaticMax 16, .next 0], ?_, ?_⟩
  · intro action haction
    simp only [List.mem_append, List.mem_cons, List.mem_map,
      List.not_mem_nil, or_false] at haction
    rcases haction with (⟨t, -, rfl⟩ | rfl | ⟨t, -, rfl⟩) | rfl | rfl
    · exact hmax
    · trivial
    · trivial
    · exact hmax
    · trivial
  · intro hdisjoint
    rw [run_append, run_append] at hdisjoint
    have hinside := hdisjoint.inside _ hmem
    exact hpast (hstart ▸ hinside)

end StaticState

/-- With an alignment close to the maximal word two results are the same, and
with `2 ^ 52 - 1` threads a result is outside of the buffer although all
alignments are small. -/
theorem static_blocks_overlap :
    (¬ StaticBlocksDisjoint
      ((StaticState.start 1).run
        [.call 0 4096 (2 ^ 64 - 4095), .next 0,
          .call 0 4096 (2 ^ 64 - 4095), .next 0]).blocks) ∧
      ∃ actions : List (StaticAction (2 ^ 52 - 2 + 1)),
        (∀ action ∈ actions, action.AlignmentFits) ∧
          ¬ StaticBlocksDisjoint
            ((StaticState.start (2 ^ 52 - 2 + 1)).run actions).blocks := by
  constructor
  · intro hdisjoint
    have hblocks : ((StaticState.start 1).run
        [.call 0 4096 (2 ^ 64 - 4095), .next 0,
          .call 0 4096 (2 ^ 64 - 4095), .next 0]).blocks =
        [⟨⟨1, 4096, 2 ^ 64 - 4095⟩, 0⟩, ⟨⟨0, 4096, 2 ^ 64 - 4095⟩, 0⟩] := by
      decide +kernel
    have hoverlap : ¬ [(⟨⟨1, 4096, 2 ^ 64 - 4095⟩, 0⟩ : StaticBlock),
        ⟨⟨0, 4096, 2 ^ 64 - 4095⟩, 0⟩].Pairwise fun a b =>
          a.start + a.call.size ≤ b.start ∨
            b.start + b.call.size ≤ a.start := by
      decide +kernel
    exact hoverlap (hblocks ▸ hdisjoint.disjoint)
  · exact StaticState.exists_run_outside (by decide)

end Palloc
