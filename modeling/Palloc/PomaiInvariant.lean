import Palloc.PomaiArena
import Palloc.BumpReservation

/-!
# The invariant of the shared Pomai arena

The offset is the bound of a set of reservations, one for each call that has
moved it and not given up.  The watermark only moves in the hands of the one
call that holds the lock, after the bytes up to it were committed.
-/

namespace Palloc

open MachineWord BumpReservation

/-! ## Creation and requests -/

structure PomaiArena.Created (arena : PomaiArena) (capacityBytes : ℕ) :
    Prop where
  capacity_eq : arena.maxCapacityBytes = capacityBytes
  payload_eq : arena.payloadCapacity = capacityBytes
  payloadDvd : arenaVectorAlign ∣ arena.payloadStart
  baseDvd : arenaVectorAlign ∣ arena.base
  hardLimit_eq : arena.hardLimit = arena.payloadStart + capacityBytes
  hardLimitLe : arena.hardLimit ≤ arena.totalSize
  endLe : arena.base + arena.totalSize ≤ wordSize
  basePos : 0 < arena.base

theorem arenaPayloadStart_dvd (os : PrimOs) :
    arenaVectorAlign ∣ arenaPayloadStart os := by
  apply dvd_trans ?_ (dvd_wordAlignUp _ _)
  split
  · exact os.dvd_pageSize
  · exact dvd_rfl

theorem arenaCreateForVectorEx_spec {os : PrimOs} {capacityBytes : ℕ}
    {commitOk : Bool} {arena : PomaiArena} {firstCommit : ℕ}
    (hcreate : arenaCreateForVectorEx os capacityBytes commitOk =
      some (arena, firstCommit)) :
    arena.Created capacityBytes ∧
      (arena.useOsReserve = false → arena.totalSize ≤ firstCommit) := by
  have hword : maxWord + 1 = wordSize := by decide
  have hpage := os.pageSize_pos
  unfold arenaCreateForVectorEx at hcreate
  split at hcreate
  · cases hcreate
  rename_i hcapacity
  dsimp only at hcreate
  split at hcreate
  · cases hcreate
  rename_i hroom
  have hsum : arenaPayloadStart os + capacityBytes < wordSize := by
    have hlt : arenaPayloadStart os < wordSize := wordAlignUp_lt_wordSize
    omega
  rw [Nat.mod_eq_of_lt hsum] at hcreate
  generalize htotal :
    wordAlignUp (arenaPayloadStart os + capacityBytes) os.pageSize = totalSize
    at hcreate
  cases halloc : os.alloc totalSize os.pageSize with
  | none => simp [halloc] at hcreate
  | some p =>
      rcases os.alloc_spec _ _ _ halloc with ⟨hpos, hbase, hdvd, hend⟩
      simp only [halloc] at hcreate
      split at hcreate
      · cases hcreate
      simp only [Option.some.injEq, Prod.mk.injEq] at hcreate
      rcases hcreate with ⟨rfl, hfirst⟩
      have hle : arenaPayloadStart os + capacityBytes ≤ totalSize := by
        by_cases hwrap : wordSize ≤
            arenaPayloadStart os + capacityBytes + os.pageSize - 1
        · have hpagele : os.pageSize ≤ wordSize :=
            os.pageSize_le.trans (by decide)
          rw [wordAlignUp_of_wrap hsum hpagele hwrap] at htotal
          omega
        · rw [wordAlignUp_of_lt (by omega)] at htotal
          rw [← htotal]
          exact le_exactAlignUp hpage
      constructor
      · constructor
        · rfl
        · rfl
        · exact arenaPayloadStart_dvd os
        · exact os.dvd_pageSize.trans hdvd
        · exact Nat.mod_eq_of_lt hsum
        · show (arenaPayloadStart os + capacityBytes) % wordSize ≤ totalSize
          rw [Nat.mod_eq_of_lt hsum]
          exact hle
        · exact hend
        · exact hbase
      · intro hreserve
        have hfull : os.virtualReserve = false := hreserve
        rw [hfull] at hfirst
        exact hfirst.le

theorem alignedRequest_spec {vectorDim elementSize : ℕ} {alignedSize : ℕ}
    (hrequest : alignedRequest vectorDim elementSize = some alignedSize) :
    0 < vectorDim * elementSize ∧ alignedSize =
      exactAlignUp (vectorDim * elementSize) arenaVectorAlign := by
  have hword : maxWord + 1 = wordSize := by decide
  unfold alignedRequest at hrequest
  split at hrequest
  · cases hrequest
  rename_i hdim
  have hexact : vectorDim * elementSize < wordSize := by
    by_cases hzero : vectorDim = 0
    · rw [hzero, Nat.zero_mul]
      decide
    · have hpos : 0 < vectorDim := Nat.pos_of_ne_zero hzero
      have hle : elementSize ≤ maxWord / vectorDim :=
        not_lt.mp fun hlt => hdim (Or.inr ⟨hpos, hlt⟩)
      have hmul : vectorDim * elementSize ≤ maxWord :=
        (Nat.mul_le_mul_left _ hle).trans (Nat.mul_div_le _ _)
      omega
  dsimp only at hrequest
  rw [Nat.mod_eq_of_lt hexact] at hrequest
  split at hrequest
  · cases hrequest
  rename_i hsize
  have hpos := Nat.pos_of_ne_zero hsize
  split at hrequest
  · cases hrequest
  rename_i hround
  injection hrequest with hrequest
  refine ⟨hpos, ?_⟩
  rw [← hrequest]
  exact wordAlignUp_eq_exact hpos hexact (by decide) (not_lt.mp hround)

/-- The bytes a call needs; zero when it is refused at once. -/
def requestSize {ι : Type*} (request : ι → Word × Word) (i : ι) : ℕ :=
  (alignedRequest (request i).1 (request i).2).getD 0

theorem requestSize_spec {ι : Type*} {request : ι → Word × Word} {i : ι}
    {alignedSize : ℕ}
    (hrequest :
      alignedRequest (request i).1 (request i).2 = some alignedSize) :
    alignedSize = requestSize request i ∧ 0 < requestSize request i ∧
      arenaVectorAlign ∣ requestSize request i := by
  have hsize : requestSize request i = alignedSize := by
    unfold requestSize
    rw [hrequest]
    rfl
  rcases alignedRequest_spec hrequest with ⟨hpos, heq⟩
  have hle : (request i).1.val * (request i).2.val ≤
      exactAlignUp ((request i).1 * (request i).2) arenaVectorAlign :=
    le_exactAlignUp (by decide)
  rw [hsize]
  refine ⟨rfl, by omega, ?_⟩
  rw [heq]
  exact dvd_exactAlignUp _ _

theorem requestSize_covers {ι : Type*} {request : ι → Word × Word} {i : ι}
    (hpos : 0 < requestSize request i) :
    (request i).1.val * (request i).2.val ≤ requestSize request i := by
  unfold requestSize at hpos ⊢
  cases hrequest : alignedRequest (request i).1 (request i).2 with
  | none =>
      rw [hrequest] at hpos
      cases hpos
  | some alignedSize =>
      rw [Option.getD_some, (alignedRequest_spec hrequest).2]
      exact le_exactAlignUp (by decide)

/-! ## Steps -/

/-- Where the range of a call starts while it holds one. -/
def PomaiPc.reserved : PomaiPc → Option ℕ
  | .start | .bump _ _ | .failed => none
  | .load old _ | .acquire old _ | .recheck old _ | .locked old _
  | .commit old _ _ _ | .publish old _ _ | .unlock old _ _
  | .rollback old _ | .returned old => some old

def PomaiPc.holdsLock : PomaiPc → Bool
  | .locked _ _ | .commit _ _ _ _ | .publish _ _ _ | .unlock _ _ _ => true
  | _ => false

/-- What the local variables of a call say about the shared words. -/
def PomaiPc.Consistent (size watermark : ℕ) (committedBytes : ℕ → Bool) :
    PomaiPc → Prop
  | .start | .failed => True
  | .bump alignedSize _ =>
      alignedSize = size ∧ 0 < size ∧ arenaVectorAlign ∣ size
  | .load old new | .acquire old new | .recheck old new | .locked old new
  | .rollback old new => new = old + size
  | .commit old new cur newCommitted =>
      new = old + size ∧ cur = watermark ∧ cur < new ∧ new ≤ newCommitted
  | .publish old new newCommitted =>
      new = old + size ∧ watermark < new ∧ new ≤ newCommitted ∧
        ∀ b < newCommitted, committedBytes b = true
  | .unlock old new ok => new = old + size ∧ (ok = true → new ≤ watermark)
  | .returned old => old + size ≤ watermark

def PomaiState.reservations {ι : Type*} (st : PomaiState ι) :
    Reservations ι :=
  ⟨st.offset, fun i => (st.pc i).reserved⟩

@[simp] theorem reservations_top {ι : Type*} (st : PomaiState ι) :
    st.reservations.top = st.offset := rfl

@[simp] theorem reservations_start {ι : Type*} (st : PomaiState ι) (i : ι) :
    st.reservations.start i = (st.pc i).reserved := rfl

structure PomaiInvariant {ι : Type*} (arena : PomaiArena)
    (request : ι → Word × Word) (st : PomaiState ι) : Prop where
  sound : st.reservations.Sound arena.payloadStart arenaVectorAlign
    (requestSize request)
  offsetLe : st.offset ≤ arena.hardLimit
  consistent : ∀ i, (st.pc i).Consistent (requestSize request i) st.committed
    st.committedBytes
  lockSet : ∀ i, (st.pc i).holdsLock = true → st.commitLock ≠ 0
  lockUnique : ∀ i j, (st.pc i).holdsLock = true →
    (st.pc j).holdsLock = true → i = j
  bytes : ∀ b < st.committed, st.committedBytes b = true
  fullCommit : arena.useOsReserve = false → arena.totalSize ≤ st.committed

variable {ι : Type*} [DecidableEq ι]

inductive PomaiMove (arena : PomaiArena) (size : ℕ) (st : PomaiState ι)
    (i : ι) : PomaiState ι → Prop
  /-- Only the control of the call changes. -/
  | control (pc : PomaiPc) (hreserved : pc.reserved = (st.pc i).reserved)
      (hlock : pc.holdsLock = (st.pc i).holdsLock)
      (hconsistent : pc.Consistent size st.committed st.committedBytes) :
      PomaiMove arena size st i (st.goto i pc)
  | reserve (hstart : (st.pc i).reserved = none) (hpos : 0 < size)
      (hdvd : arenaVectorAlign ∣ size)
      (hlimit : st.offset + size ≤ arena.hardLimit) :
      PomaiMove arena size st i
        ({ st with offset := st.offset + size }.goto i
          (if arena.useOsReserve then .load st.offset (st.offset + size)
          else .returned st.offset))
  | lock (old : ℕ) (hpc : st.pc i = .acquire old (old + size))
      (hfree : st.commitLock = 0) :
      PomaiMove arena size st i
        ({ st with commitLock := 1 }.goto i (.locked old (old + size)))
  | commit (old newCommitted : ℕ)
      (hpc : st.pc i = .commit old (old + size) st.committed newCommitted)
      (hlow : st.committed < old + size) (hnew : old + size ≤ newCommitted) :
      PomaiMove arena size st i
        ({ st with committedBytes := fun b => st.committedBytes b ||
            (decide (st.committed ≤ b) && decide (b < newCommitted)) }.goto i
          (.publish old (old + size) newCommitted))
  | publish (old newCommitted : ℕ)
      (hpc : st.pc i = .publish old (old + size) newCommitted)
      (hlow : st.committed < old + size) (hnew : old + size ≤ newCommitted)
      (hbytes : ∀ b < newCommitted, st.committedBytes b = true) :
      PomaiMove arena size st i
        ({ st with committed := newCommitted }.goto i
          (.unlock old (old + size) true))
  | unlock (old : ℕ) (ok : Bool) (hpc : st.pc i = .unlock old (old + size) ok)
      (hok : ok = true → old + size ≤ st.committed) :
      PomaiMove arena size st i
        ({ st with commitLock := 0 }.goto i
          (if ok then .returned old else .rollback old (old + size)))
  | rollback (old : ℕ) (hpc : st.pc i = .rollback old (old + size)) :
      PomaiMove arena size st i
        ({ st with offset :=
            if st.offset = old + size then old else st.offset }.goto i .failed)

theorem goto_self (st : PomaiState ι) (i : ι) :
    st.goto i (st.pc i) = st := by
  unfold PomaiState.goto
  rw [Function.update_eq_self]

theorem PomaiMove.stay {arena : PomaiArena} {size : ℕ} {st : PomaiState ι}
    {i : ι}
    (hconsistent : (st.pc i).Consistent size st.committed st.committedBytes) :
    PomaiMove arena size st i st := by
  have hmove : PomaiMove arena size st i (st.goto i (st.pc i)) :=
    .control (st.pc i) rfl rfl hconsistent
  rwa [goto_self] at hmove

/-- The one place where the source's step is taken apart. -/
theorem PomaiState.step_move {arena : PomaiArena} {capacityBytes : ℕ}
    {request : ι → Word × Word} {st : PomaiState ι}
    (hcreated : arena.Created capacityBytes)
    (hinv : PomaiInvariant arena request st) (i : ι) (outcome : Outcome) :
    PomaiMove arena (requestSize request i) st i
      (st.step arena request i outcome) := by
  have hconsistent := hinv.consistent i
  cases hpc : st.pc i with
  | start =>
      simp only [PomaiState.step, hpc]
      cases hrequest : alignedRequest (request i).1 (request i).2 with
      | none => exact .control .failed (by rw [hpc]; rfl) (by rw [hpc]; rfl) trivial
      | some alignedSize =>
          exact .control _ (by rw [hpc]; rfl) (by rw [hpc]; rfl)
            (requestSize_spec hrequest)
  | bump alignedSize old =>
      rw [hpc] at hconsistent
      rcases hconsistent with ⟨rfl, hpos, hdvd⟩
      simp only [PomaiState.step, hpc]
      split
      · exact .control .failed (by rw [hpc]; rfl) (by rw [hpc]; rfl) trivial
      rename_i hfits
      split
      · rename_i hcas
        rcases hcas with ⟨rfl, -⟩
        have hlimit : st.offset + requestSize request i ≤ arena.hardLimit := by
          omega
        have hend := hcreated.endLe
        have hbase := hcreated.basePos
        have htotal := hcreated.hardLimitLe
        rw [Nat.mod_eq_of_lt (by omega)]
        exact .reserve (by rw [hpc]; rfl) hpos hdvd hlimit
      · exact .control _ (by rw [hpc]; rfl) (by rw [hpc]; rfl)
          ⟨rfl, hpos, hdvd⟩
  | load old new =>
      rw [hpc] at hconsistent
      simp only [PomaiState.step, hpc]
      obtain rfl : new = old + requestSize request i := hconsistent
      split
      · rename_i hcommitted
        exact .control _ (by rw [hpc]; rfl) (by rw [hpc]; rfl) hcommitted
      · exact .control _ (by rw [hpc]; rfl) (by rw [hpc]; rfl) rfl
  | acquire old new =>
      rw [hpc] at hconsistent
      simp only [PomaiState.step, hpc]
      split
      · rename_i hfree
        obtain rfl : new = old + requestSize request i := hconsistent
        exact .lock old hpc hfree
      · exact .control _ (by rw [hpc]; rfl) (by rw [hpc]; rfl) hconsistent
  | recheck old new =>
      rw [hpc] at hconsistent
      simp only [PomaiState.step, hpc]
      obtain rfl : new = old + requestSize request i := hconsistent
      split
      · rename_i hcommitted
        exact .control _ (by rw [hpc]; rfl) (by rw [hpc]; rfl) hcommitted
      · exact .control _ (by rw [hpc]; rfl) (by rw [hpc]; rfl) rfl
  | locked old new =>
      rw [hpc] at hconsistent
      obtain rfl : new = old + requestSize request i := hconsistent
      have htotal : old + requestSize request i ≤ arena.totalSize := by
        have hend := hinv.sound.end_le i old
          (by rw [reservations_start, hpc]; rfl)
        exact hend.trans (hinv.offsetLe.trans hcreated.hardLimitLe)
      simp only [PomaiState.step, hpc]
      split
      · rename_i hlow
        split
        · exact .control _ (by rw [hpc]; rfl) (by rw [hpc]; rfl)
            ⟨rfl, by simp⟩
        · rename_i hround
          refine .control _ (by rw [hpc]; rfl) (by rw [hpc]; rfl)
            ⟨rfl, rfl, hlow, ?_⟩
          split <;> omega
      · rename_i hcommitted
        exact .control _ (by rw [hpc]; rfl) (by rw [hpc]; rfl)
          ⟨rfl, fun _ => not_lt.mp hcommitted⟩
  | commit old new cur newCommitted =>
      rw [hpc] at hconsistent
      rcases hconsistent with ⟨rfl, rfl, hlow, hnew⟩
      simp only [PomaiState.step, hpc]
      split
      · exact .commit old newCommitted hpc hlow hnew
      · exact .control _ (by rw [hpc]; rfl) (by rw [hpc]; rfl)
          ⟨rfl, by simp⟩
  | publish old new newCommitted =>
      rw [hpc] at hconsistent
      rcases hconsistent with ⟨rfl, hlow, hnew, hbytes⟩
      simp only [PomaiState.step, hpc]
      exact .publish old newCommitted hpc hlow hnew hbytes
  | unlock old new ok =>
      rw [hpc] at hconsistent
      rcases hconsistent with ⟨rfl, hok⟩
      simp only [PomaiState.step, hpc]
      exact .unlock old ok hpc hok
  | rollback old new =>
      rw [hpc] at hconsistent
      obtain rfl : new = old + requestSize request i := hconsistent
      simp only [PomaiState.step, hpc]
      exact .rollback old hpc
  | returned old =>
      have hstay : st.step arena request i outcome = st := by
        simp only [PomaiState.step, hpc]
      rw [hstay]
      exact .stay hconsistent
  | failed =>
      have hstay : st.step arena request i outcome = st := by
        simp only [PomaiState.step, hpc]
      rw [hstay]
      exact .stay hconsistent

end Palloc
