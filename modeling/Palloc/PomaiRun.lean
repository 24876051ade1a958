import Palloc.PomaiInvariant
import Mathlib.Data.Fin.VecNotation

/-!
# Runs of the shared Pomai arena

Every step keeps the invariant, so the ranges of successful calls are disjoint
and committed in every interleaving.  The offset accounts for the successful
calls only as long as no call finds, when it wants to move the offset back,
that another call has moved it since.
-/

namespace Palloc

open MachineWord BumpReservation

variable {ι : Type*} [DecidableEq ι]
variable {arena : PomaiArena} {request : ι → Word × Word}
variable {st st' : PomaiState ι} {i : ι} {size : ℕ} {capacityBytes : ℕ}

theorem goto_pc_self (st : PomaiState ι) (i : ι) (pc : PomaiPc) :
    (st.goto i pc).pc i = pc :=
  Function.update_self ..

theorem goto_pc_of_ne (st : PomaiState ι) {i j : ι} (hne : j ≠ i)
    (pc : PomaiPc) : (st.goto i pc).pc j = st.pc j :=
  Function.update_of_ne hne ..

theorem goto_reservations (st : PomaiState ι) (i : ι) (pc : PomaiPc) :
    (st.goto i pc).reservations =
      ⟨st.offset, Function.update st.reservations.start i pc.reserved⟩ := by
  have hstart : (fun j => ((st.goto i pc).pc j).reserved) =
      Function.update st.reservations.start i pc.reserved := by
    funext j
    by_cases heq : j = i
    · rw [heq, goto_pc_self, Function.update_self]
    · rw [goto_pc_of_ne st heq, Function.update_of_ne heq]
      rfl
  show Reservations.mk st.offset _ = _
  rw [hstart]

/-! ## What one step does -/

theorem PomaiMove.frame (hmove : PomaiMove arena size st i st') {j : ι}
    (hne : j ≠ i) : st'.pc j = st.pc j := by
  cases hmove <;> exact goto_pc_of_ne _ hne _

/-- A step leaves the reservations alone, makes one or gives one up. -/
theorem PomaiMove.reservations
    (hmove : PomaiMove arena (requestSize request i) st i st') :
    st'.reservations = st.reservations ∨
    ((st.pc i).reserved = none ∧ 0 < requestSize request i ∧
      arenaVectorAlign ∣ requestSize request i ∧
      st.offset + requestSize request i ≤ arena.hardLimit ∧
      st'.reservations =
        st.reservations.reserve (requestSize request) i) ∨
    ∃ old, st.pc i = .rollback old (old + requestSize request i) ∧
      st'.reservations =
        st.reservations.giveBack (requestSize request) i old := by
  have hsame : ∀ (st'' : PomaiState ι) (pc : PomaiPc),
      st''.reservations = st.reservations →
      pc.reserved = (st.pc i).reserved →
        (st''.goto i pc).reservations = st.reservations := by
    intro st'' pc heq hreserved
    rw [goto_reservations, heq, hreserved]
    show Reservations.mk st''.reservations.top _ = _
    rw [heq, ← reservations_start, Function.update_eq_self]
  cases hmove with
  | control pc hreserved hlock hconsistent =>
      exact Or.inl (hsame st pc rfl hreserved)
  | reserve hstart hpos hdvd hlimit =>
      refine Or.inr (Or.inl ⟨hstart, hpos, hdvd, hlimit, ?_⟩)
      rw [goto_reservations]
      unfold Reservations.reserve
      split <;> rfl
  | lock old hpc hfree => exact Or.inl (hsame _ _ rfl (by rw [hpc]; rfl))
  | commit old newCommitted hpc hlow hnew =>
      exact Or.inl (hsame _ _ rfl (by rw [hpc]; rfl))
  | publish old newCommitted hpc hlow hnew hbytes =>
      exact Or.inl (hsame _ _ rfl (by rw [hpc]; rfl))
  | unlock old ok hpc hok =>
      refine Or.inl (hsame _ _ rfl ?_)
      rw [hpc]
      cases ok <;> rfl
  | rollback old hpc =>
      refine Or.inr (Or.inr ⟨old, hpc, ?_⟩)
      rw [goto_reservations]
      rfl

/-- Only a call with the lock commits memory or moves the watermark, and it
moves it up. -/
theorem PomaiMove.watermark (hmove : PomaiMove arena size st i st') :
    st.committed ≤ st'.committed ∧
    (∀ b, st.committedBytes b = true → st'.committedBytes b = true) ∧
    ((st.pc i).holdsLock = true ∨
      st'.committed = st.committed ∧
        st'.committedBytes = st.committedBytes) := by
  cases hmove with
  | control pc hreserved hlock hconsistent =>
      exact ⟨le_rfl, fun _ hb => hb, Or.inr ⟨rfl, rfl⟩⟩
  | reserve hstart hpos hdvd hlimit =>
      exact ⟨le_rfl, fun _ hb => hb, Or.inr ⟨rfl, rfl⟩⟩
  | lock old hpc hfree =>
      exact ⟨le_rfl, fun _ hb => hb, Or.inr ⟨rfl, rfl⟩⟩
  | commit old newCommitted hpc hlow hnew =>
      refine ⟨le_rfl, fun b hb => ?_, Or.inl (by rw [hpc]; rfl)⟩
      show (st.committedBytes b || _) = true
      rw [hb]
      rfl
  | publish old newCommitted hpc hlow hnew hbytes =>
      exact ⟨hlow.le.trans hnew, fun _ hb => hb, Or.inl (by rw [hpc]; rfl)⟩
  | unlock old ok hpc hok =>
      exact ⟨le_rfl, fun _ hb => hb, Or.inr ⟨rfl, rfl⟩⟩
  | rollback old hpc =>
      exact ⟨le_rfl, fun _ hb => hb, Or.inr ⟨rfl, rfl⟩⟩

theorem PomaiMove.lock_spec (hmove : PomaiMove arena size st i st') :
    st'.commitLock = st.commitLock ∧
        (st'.pc i).holdsLock = (st.pc i).holdsLock ∨
    st.commitLock = 0 ∧ st'.commitLock ≠ 0 ∨
    (st.pc i).holdsLock = true ∧ (st'.pc i).holdsLock = false := by
  cases hmove with
  | control pc hreserved hlock hconsistent =>
      refine Or.inl ⟨rfl, ?_⟩
      rw [goto_pc_self, hlock]
  | reserve hstart hpos hdvd hlimit =>
      refine Or.inl ⟨rfl, ?_⟩
      rw [goto_pc_self]
      have hfree : (st.pc i).holdsLock = false := by
        cases hpc : st.pc i <;> rw [hpc] at hstart <;>
          first | rfl | cases hstart
      rw [hfree]
      split <;> rfl
  | lock old hpc hfree => exact Or.inr (Or.inl ⟨hfree, Nat.one_ne_zero⟩)
  | commit old newCommitted hpc hlow hnew =>
      refine Or.inl ⟨rfl, ?_⟩
      rw [goto_pc_self, hpc]
      rfl
  | publish old newCommitted hpc hlow hnew hbytes =>
      refine Or.inl ⟨rfl, ?_⟩
      rw [goto_pc_self, hpc]
      rfl
  | unlock old ok hpc hok =>
      refine Or.inr (Or.inr ⟨by rw [hpc]; rfl, ?_⟩)
      rw [goto_pc_self]
      cases ok <;> rfl
  | rollback old hpc =>
      refine Or.inl ⟨rfl, ?_⟩
      rw [goto_pc_self, hpc]
      rfl

theorem PomaiMove.own (hmove : PomaiMove arena size st i st')
    (hcreated : arena.Created capacityBytes)
    (hbytes : ∀ b < st.committed, st.committedBytes b = true)
    (hfull : arena.useOsReserve = false → arena.totalSize ≤ st.committed) :
    (st'.pc i).Consistent size st'.committed st'.committedBytes := by
  cases hmove with
  | control pc hreserved hlock hconsistent =>
      rw [goto_pc_self]
      exact hconsistent
  | reserve hstart hpos hdvd hlimit =>
      rw [goto_pc_self]
      cases hreserve : arena.useOsReserve with
      | true => rfl
      | false =>
          have htotal := hcreated.hardLimitLe
          have hcommitted := hfull hreserve
          show st.offset + size ≤ st.committed
          omega
  | lock old hpc hfree =>
      rw [goto_pc_self]
      rfl
  | commit old newCommitted hpc hlow hnew =>
      rw [goto_pc_self]
      refine ⟨rfl, hlow, hnew, ?_⟩
      intro b hb
      show (st.committedBytes b || _) = true
      by_cases hold : b < st.committed
      · rw [hbytes b hold]
        rfl
      · simp [not_lt.mp hold, hb]
  | publish old newCommitted hpc hlow hnew hnewBytes =>
      rw [goto_pc_self]
      exact ⟨rfl, fun _ => hnew⟩
  | unlock old ok hpc hok =>
      rw [goto_pc_self]
      cases ok with
      | true => exact hok rfl
      | false => rfl
  | rollback old hpc =>
      rw [goto_pc_self]
      trivial

theorem PomaiMove.bytes (hmove : PomaiMove arena size st i st')
    (hbytes : ∀ b < st.committed, st.committedBytes b = true) :
    ∀ b < st'.committed, st'.committedBytes b = true := by
  cases hmove with
  | commit old newCommitted hpc hlow hnew =>
      intro b hb
      show (st.committedBytes b || _) = true
      rw [hbytes b hb]
      rfl
  | publish old newCommitted hpc hlow hnew hnewBytes => exact hnewBytes
  | control pc hreserved hlock hconsistent => exact hbytes
  | reserve hstart hpos hdvd hlimit => exact hbytes
  | lock old hpc hfree => exact hbytes
  | unlock old ok hpc hok => exact hbytes
  | rollback old hpc => exact hbytes

/-- The watermark and the bytes of another call only grow, and stay as they
are while it has the lock. -/
theorem PomaiPc.Consistent.mono {pc : PomaiPc} {watermark watermark' : ℕ}
    {bytes bytes' : ℕ → Bool} (hpc : pc.Consistent size watermark bytes)
    (hle : watermark ≤ watermark')
    (hbytes : ∀ b, bytes b = true → bytes' b = true)
    (hlock : pc.holdsLock = true → watermark' = watermark) :
    pc.Consistent size watermark' bytes' := by
  cases pc with
  | commit old new cur newCommitted =>
      rw [hlock rfl]
      exact hpc
  | publish old new newCommitted =>
      rw [hlock rfl]
      rcases hpc with ⟨hnew, hlow, hcommitted, hall⟩
      exact ⟨hnew, hlow, hcommitted, fun b hb => hbytes b (hall b hb)⟩
  | unlock old new ok =>
      rw [hlock rfl]
      exact hpc
  | returned old => exact le_trans hpc hle
  | start => trivial
  | failed => trivial
  | bump alignedSize old => exact hpc
  | load old new => exact hpc
  | acquire old new => exact hpc
  | recheck old new => exact hpc
  | locked old new => exact hpc
  | rollback old new => exact hpc

/-! ## The invariant along a run -/

omit [DecidableEq ι] in
theorem PomaiInvariant.initial {firstCommit : ℕ}
    (hcreated : arena.Created capacityBytes)
    (hfull : arena.useOsReserve = false → arena.totalSize ≤ firstCommit) :
    PomaiInvariant arena request (PomaiState.initial arena firstCommit) := by
  have hlimit := hcreated.hardLimit_eq
  constructor
  · exact Reservations.Sound.initial hcreated.payloadDvd
  · show arena.payloadStart ≤ arena.hardLimit
    omega
  · intro i
    trivial
  · intro i hlock
    cases hlock
  · intro i j hlock
    cases hlock
  · intro b hb
    exact decide_eq_true hb
  · exact hfull

theorem PomaiInvariant.move (hinv : PomaiInvariant arena request st)
    (hcreated : arena.Created capacityBytes)
    (hmove : PomaiMove arena (requestSize request i) st i st') :
    PomaiInvariant arena request st' := by
  rcases hmove.watermark with ⟨hmono, hbytes, hholder⟩
  have hown := hmove.own hcreated hinv.bytes hinv.fullCommit
  have hlockOf : ∀ j, (st'.pc j).holdsLock = true → j ≠ i →
      (st.pc j).holdsLock = true := by
    intro j hj hne
    rwa [hmove.frame hne] at hj
  constructor
  · rcases hmove.reservations with
      hsame | ⟨hfree, hpos, hdvd, -, heq⟩ | ⟨old, hpc, heq⟩
    · rw [hsame]
      exact hinv.sound
    · rw [heq]
      exact hinv.sound.reserve hpos hdvd
    · rw [heq]
      exact hinv.sound.giveBack (by rw [reservations_start, hpc]; rfl)
  · have hoffset := hinv.offsetLe
    rcases hmove.reservations with
      hsame | ⟨hfree, hpos, hdvd, hlimit, heq⟩ | ⟨old, hpc, heq⟩
    · rw [← reservations_top, hsame]
      exact hoffset
    · rw [← reservations_top, heq]
      exact hlimit
    · rw [← reservations_top, heq]
      show (if _ then _ else _) ≤ arena.hardLimit
      have hend := hinv.sound.end_le i old
        (by rw [reservations_start, hpc]; rfl)
      rw [reservations_top] at hend
      split
      · omega
      · exact hoffset
  · intro j
    by_cases heq : j = i
    · rw [heq]
      exact hown
    · rw [hmove.frame heq]
      apply (hinv.consistent j).mono hmono hbytes
      intro hj
      -- `j` has the lock, so `i` does not
      rcases hholder with hi | hsame
      · exact absurd (hinv.lockUnique j i hj hi) heq
      · exact hsame.1
  · intro j hj
    rcases hmove.lock_spec with ⟨hlock, hsame⟩ | ⟨-, hset⟩ | ⟨hi, hi'⟩
    · rw [hlock]
      by_cases heq : j = i
      · rw [heq, hsame] at hj
        exact hinv.lockSet i hj
      · exact hinv.lockSet j (hlockOf j hj heq)
    · exact hset
    · by_cases heq : j = i
      · rw [heq, hi'] at hj
        cases hj
      · exact absurd (hinv.lockUnique j i (hlockOf j hj heq) hi) heq
  · intro j k hj hk
    rcases hmove.lock_spec with ⟨-, hsame⟩ | ⟨hfree, -⟩ | ⟨hi, hi'⟩
    · have hbefore : ∀ m, (st'.pc m).holdsLock = true →
          (st.pc m).holdsLock = true := by
        intro m hm
        by_cases heq : m = i
        · rw [heq, hsame] at hm
          rw [heq]
          exact hm
        · exact hlockOf m hm heq
      exact hinv.lockUnique j k (hbefore j hj) (hbefore k hk)
    · -- the lock was free, so only `i` can have it now
      have honly : ∀ m, (st'.pc m).holdsLock = true → m = i := by
        intro m hm
        by_contra hne
        exact hinv.lockSet m (hlockOf m hm hne) hfree
      rw [honly j hj, honly k hk]
    · have hnone : ∀ m, (st'.pc m).holdsLock = true → False := by
        intro m hm
        by_cases heq : m = i
        · rw [heq, hi'] at hm
          cases hm
        · exact heq (hinv.lockUnique m i (hlockOf m hm heq) hi)
      exact (hnone j hj).elim
  · exact hmove.bytes hinv.bytes
  · intro hreserve
    exact (hinv.fullCommit hreserve).trans hmono

theorem PomaiInvariant.run (hcreated : arena.Created capacityBytes)
    (hinv : PomaiInvariant arena request st) (schedule : List (ι × Outcome)) :
    PomaiInvariant arena request (st.run arena request schedule) := by
  induction schedule generalizing st with
  | nil => exact hinv
  | cons step schedule ih =>
      exact ih (hinv.move hcreated
        (PomaiState.step_move hcreated hinv step.1 step.2))

def PomaiPc.result (arena : PomaiArena) : PomaiPc → Option ℕ
  | .returned old => some ((arena.base + old) % wordSize)
  | _ => none

omit [DecidableEq ι] in
theorem PomaiInvariant.result_spec (hcreated : arena.Created capacityBytes)
    (hinv : PomaiInvariant arena request st) {p : ℕ}
    (hresult : (st.pc i).result arena = some p) :
    ∃ old, st.pc i = .returned old ∧ p = arena.base + old := by
  cases hpc : st.pc i with
  | returned old =>
      rw [hpc] at hresult
      injection hresult with hresult
      have hheld : st.reservations.start i = some old := by
        rw [reservations_start, hpc]
        rfl
      have hpos := hinv.sound.pos i old hheld
      have hend := hinv.sound.end_le i old hheld
      rw [reservations_top] at hend
      have hoffset := hinv.offsetLe
      have htotal := hcreated.hardLimitLe
      have hword := hcreated.endLe
      rw [Nat.mod_eq_of_lt (by omega)] at hresult
      exact ⟨old, rfl, hresult.symm⟩
  | _ =>
      rw [hpc] at hresult
      cases hresult

/-- In every interleaving: what successful calls returned is aligned, inside
the payload, committed and disjoint; the watermark only moves up, and only the
call with the lock moves it or commits memory. -/
theorem pomai_arena_safe {os : PrimOs} {capacity : Word} {commitOk : Bool}
    {arena : PomaiArena} {firstCommit : ℕ}
    (hcreate : arenaCreateForVectorEx os capacity commitOk =
      some (arena, firstCommit))
    (request : ι → Word × Word) (schedule : List (ι × Outcome))
    (st : PomaiState ι)
    (hst : st =
      (PomaiState.initial arena firstCommit).run arena request schedule) :
    (∀ i p, (st.pc i).result arena = some p →
      arenaVectorAlign ∣ p ∧
      0 < requestSize request i ∧
      (request i).1.val * (request i).2.val ≤ requestSize request i ∧
      arena.base + arena.payloadStart ≤ p ∧
      p + requestSize request i ≤
        arena.base + arena.payloadStart + arena.payloadCapacity ∧
      p + requestSize request i ≤ arena.base + st.committed) ∧
    (∀ b < st.committed, st.committedBytes b = true) ∧
    (∀ i j p q, i ≠ j → (st.pc i).result arena = some p →
      (st.pc j).result arena = some q →
      p + requestSize request i ≤ q ∨ q + requestSize request j ≤ p) ∧
    (∀ i outcome,
      st.committed ≤ (st.step arena request i outcome).committed ∧
      ((st.step arena request i outcome).committed ≠ st.committed ∨
        (st.step arena request i outcome).committedBytes ≠
          st.committedBytes →
        st.commitLock ≠ 0 ∧ (st.pc i).holdsLock = true ∧
        ∀ j, (st.pc j).holdsLock = true → j = i)) := by
  rcases arenaCreateForVectorEx_spec hcreate with ⟨hcreated, hfull⟩
  have hinv : PomaiInvariant arena request st := by
    rw [hst]
    exact (PomaiInvariant.initial hcreated hfull).run hcreated schedule
  refine ⟨?_, hinv.bytes, ?_, ?_⟩
  · intro i p hresult
    rcases hinv.result_spec hcreated hresult with ⟨old, hpc, rfl⟩
    have hheld : st.reservations.start i = some old := by
      rw [reservations_start, hpc]
      rfl
    have hend := hinv.sound.end_le i old hheld
    rw [reservations_top] at hend
    have hfloor := hinv.sound.floor_le_start i old hheld
    have hoffset := hinv.offsetLe
    have hlimit := hcreated.hardLimit_eq
    have hpayload := hcreated.payload_eq
    have hcommitted := hinv.consistent i
    rw [hpc] at hcommitted
    have hwatermark : old + requestSize request i ≤ st.committed := hcommitted
    exact ⟨Nat.dvd_add hcreated.baseDvd (hinv.sound.start_dvd i old hheld),
      hinv.sound.pos i old hheld,
      requestSize_covers (hinv.sound.pos i old hheld),
      by omega, by omega, by omega⟩
  · intro i j p q hne hp hq
    rcases hinv.result_spec hcreated hp with ⟨old, hpc, rfl⟩
    rcases hinv.result_spec hcreated hq with ⟨old', hpc', rfl⟩
    have hdisjoint := hinv.sound.disjoint i j old old' hne
      (by rw [reservations_start, hpc]; rfl)
      (by rw [reservations_start, hpc']; rfl)
    omega
  · intro i outcome
    have hmove := PomaiState.step_move hcreated hinv i outcome
    rcases hmove.watermark with ⟨hmono, -, hholder⟩
    refine ⟨hmono, ?_⟩
    intro hchange
    rcases hholder with hi | ⟨hcommitted, hbytes⟩
    · exact ⟨hinv.lockSet i hi, hi, fun j hj => hinv.lockUnique j i hj hi⟩
    · rcases hchange with hne | hne
      · exact absurd hcommitted hne
      · exact absurd hbytes hne

/-! ## The space of failed calls -/

/-- The next step of call `i` moves the offset back, and another call has
moved it since. -/
def PomaiState.rollbackBlocked {ι : Type*} (st : PomaiState ι) (i : ι) :
    Bool :=
  match st.pc i with
  | .rollback _ new => st.offset != new
  | _ => false

/-- The calls of a run that could not move the offset back. -/
def PomaiState.blocked (arena : PomaiArena) (request : ι → Word × Word) :
    PomaiState ι → List (ι × Outcome) → List ι
  | _, [] => []
  | st, step :: schedule =>
      (if st.rollbackBlocked step.1 then [step.1] else []) ++
        blocked arena request (st.step arena request step.1 step.2) schedule

def lostSize {ι : Type*} (request : ι → Word × Word) (calls : List ι) : ℕ :=
  (calls.map (requestSize request)).sum

theorem rollback_reservations {old : ℕ} {outcome : Outcome}
    (hpc : st.pc i = .rollback old (old + requestSize request i)) :
    (st.step arena request i outcome).reservations =
      st.reservations.giveBack (requestSize request) i old := by
  simp only [PomaiState.step, hpc]
  rw [goto_reservations]
  rfl

variable [Fintype ι]

/-- One step moves the offset by what is held more, and by what is lost. -/
theorem PomaiInvariant.step_account (hcreated : arena.Created capacityBytes)
    (hinv : PomaiInvariant arena request st) (i : ι) (outcome : Outcome) :
    (st.step arena request i outcome).offset +
        st.reservations.heldSize (requestSize request) =
      st.offset +
        (st.step arena request i outcome).reservations.heldSize
          (requestSize request) +
        lostSize request (if st.rollbackBlocked i then [i] else []) := by
  have hmove := PomaiState.step_move hcreated hinv i outcome
  by_cases hrollback : ∃ old new, st.pc i = .rollback old new
  · rcases hrollback with ⟨old, new, hpc⟩
    have hconsistent := hinv.consistent i
    rw [hpc] at hconsistent
    obtain rfl : new = old + requestSize request i := hconsistent
    have hheld : st.reservations.start i = some old := by
      rw [reservations_start, hpc]
      rfl
    have hsize :=
      Reservations.heldSize_giveBack (requestSize request) hheld
    have hafter : (st.step arena request i outcome).reservations =
        st.reservations.giveBack (requestSize request) i old :=
      rollback_reservations hpc
    rw [← hafter] at hsize
    have htop : (st.step arena request i outcome).offset =
        if st.offset = old + requestSize request i then old
        else st.offset := by
      rw [← reservations_top, hafter]
      rfl
    have hblocked : st.rollbackBlocked i =
        (st.offset != old + requestSize request i) := by
      unfold PomaiState.rollbackBlocked
      rw [hpc]
    rw [htop, hblocked]
    by_cases hmoved : st.offset = old + requestSize request i
    · simp only [hmoved, if_true, bne_self_eq_false, Bool.false_eq_true,
        if_false]
      show _ = _ + 0
      omega
    · have hne : (st.offset != old + requestSize request i) = true :=
        bne_iff_ne.mpr hmoved
      rw [if_neg hmoved, if_pos hne]
      show _ = _ + (requestSize request i + 0)
      omega
  · have hblocked : st.rollbackBlocked i = false := by
      unfold PomaiState.rollbackBlocked
      cases hpc : st.pc i with
      | rollback old new => exact absurd ⟨old, new, hpc⟩ hrollback
      | _ => rfl
    rw [hblocked]
    show _ = _ + 0
    rcases hmove.reservations with
      hsame | ⟨hfree, -, -, -, heq⟩ | ⟨old, hpc, -⟩
    · rw [hsame, ← reservations_top, hsame, reservations_top]
      omega
    · rw [← reservations_start] at hfree
      have hsize := Reservations.heldSize_reserve (requestSize request) hfree
      rw [heq, hsize, ← reservations_top, heq]
      show st.offset + requestSize request i + _ = _
      omega
    · exact absurd ⟨old, _, hpc⟩ hrollback

/-- A whole run. -/
theorem PomaiInvariant.run_account (hcreated : arena.Created capacityBytes)
    (hinv : PomaiInvariant arena request st)
    (schedule : List (ι × Outcome)) :
    (st.run arena request schedule).offset +
        st.reservations.heldSize (requestSize request) =
      st.offset +
        (st.run arena request schedule).reservations.heldSize
          (requestSize request) +
        lostSize request (st.blocked arena request schedule) := by
  induction schedule generalizing st with
  | nil => rfl
  | cons step schedule ih =>
      have hstep := hinv.step_account hcreated step.1 step.2
      have hrest := ih (hinv.move hcreated
        (PomaiState.step_move hcreated hinv step.1 step.2))
      have hlost : lostSize request (st.blocked arena request
          (step :: schedule)) =
          lostSize request (if st.rollbackBlocked step.1 then [step.1]
            else []) +
          lostSize request ((st.step arena request step.1 step.2).blocked
            arena request schedule) := by
        unfold lostSize
        rw [PomaiState.blocked, List.map_append, List.sum_append]
      rw [hlost]
      show ((st.step arena request step.1 step.2).run arena request
        schedule).offset + _ = _ + ((st.step arena request step.1 step.2).run
          arena request schedule).reservations.heldSize _ + _
      omega

omit [Fintype ι] in
theorem PomaiInvariant.blocked_pos (hcreated : arena.Created capacityBytes)
    (hinv : PomaiInvariant arena request st)
    (schedule : List (ι × Outcome)) :
    ∀ i ∈ st.blocked arena request schedule, 0 < requestSize request i := by
  induction schedule generalizing st with
  | nil => simp [PomaiState.blocked]
  | cons step schedule ih =>
      intro i hi
      rw [PomaiState.blocked, List.mem_append] at hi
      rcases hi with hnow | hlater
      · split at hnow
        · rename_i hblocked
          rw [List.mem_singleton] at hnow
          subst hnow
          unfold PomaiState.rollbackBlocked at hblocked
          split at hblocked
          · rename_i old new hpc
            exact hinv.sound.pos _ old
              (by rw [reservations_start, hpc]; rfl)
          · cases hblocked
        · cases hnow
      · exact ih (hinv.move hcreated
          (PomaiState.step_move hcreated hinv step.1 step.2)) i hlater

omit [DecidableEq ι] [Fintype ι] in
theorem lostSize_eq_zero {calls : List ι}
    (hpos : ∀ i ∈ calls, 0 < requestSize request i) :
    lostSize request calls = 0 ↔ calls = [] := by
  cases calls with
  | nil => exact iff_of_true rfl rfl
  | cons i calls =>
      have hi := hpos i List.mem_cons_self
      refine iff_of_false ?_ (List.cons_ne_nil i calls)
      show requestSize request i + _ ≠ 0
      omega

def PomaiPc.finished : PomaiPc → Bool
  | .returned _ | .failed => true
  | _ => false

/-- When all calls have returned, the offset accounts for exactly the
successful ones if and only if every failed call could move it back. -/
theorem pomai_arena_offset_iff {os : PrimOs} {capacity : Word}
    {commitOk : Bool} {arena : PomaiArena} {firstCommit : ℕ}
    (hcreate : arenaCreateForVectorEx os capacity commitOk =
      some (arena, firstCommit))
    (request : ι → Word × Word) (schedule : List (ι × Outcome))
    (st : PomaiState ι)
    (hst : st =
      (PomaiState.initial arena firstCommit).run arena request schedule)
    (hfinished : ∀ i, (st.pc i).finished = true) :
    st.offset = arena.payloadStart +
        (∑ i, if ((st.pc i).result arena).isSome then requestSize request i
          else 0) ↔
      (PomaiState.initial arena firstCommit).blocked arena request schedule =
        [] := by
  rcases arenaCreateForVectorEx_spec hcreate with ⟨hcreated, hfull⟩
  have hinv : PomaiInvariant arena request
      (PomaiState.initial arena firstCommit) :=
    PomaiInvariant.initial hcreated hfull
  have haccount := hinv.run_account hcreated schedule
  rw [← hst] at haccount
  have hheld : st.reservations.heldSize (requestSize request) =
      ∑ i, if ((st.pc i).result arena).isSome then requestSize request i
        else 0 := by
    apply Finset.sum_congr rfl
    intro i _
    have hdone := hfinished i
    rw [reservations_start]
    cases hpc : st.pc i <;> rw [hpc] at hdone <;>
      first | rfl | cases hdone
  have hstart : (PomaiState.initial arena firstCommit :
      PomaiState ι).reservations.heldSize (requestSize request) = 0 :=
    Finset.sum_eq_zero fun i _ => rfl
  have hlost := lostSize_eq_zero (hinv.blocked_pos hcreated schedule)
  rw [← hlost, ← hheld]
  have hoffset : (PomaiState.initial arena firstCommit :
      PomaiState ι).offset = arena.payloadStart := rfl
  omega

/-! ## Two calls -/

def eightMegabytes : PomaiArena where
  base := 4096
  payloadStart := 4096
  payloadCapacity := 8 * 1024 * 1024
  maxCapacityBytes := 8 * 1024 * 1024
  totalSize := 4096 + 8 * 1024 * 1024
  commitGrain := 2 * 1024 * 1024
  useOsReserve := true

theorem arenaCreateForVectorEx_pageOs :
    arenaCreateForVectorEx pageOs (8 * 1024 * 1024 : Word) true =
      some (eightMegabytes, 4096 + 2 * 1024 * 1024) := by
  decide +kernel

/-- The first call needs a commit, the second comes after it. -/
def twoRequests : Fin 2 → Word × Word := ![(3 * 1024 * 1024, 1), (64, 1)]

def steps (i : Fin 2) (count : ℕ) : List (Fin 2 × Outcome) :=
  List.replicate count (i, ⟨true, true⟩)

theorem pomai_arena_safe_two :
    ∃ st : PomaiState (Fin 2),
      (st.pc 0).result eightMegabytes = some 8192 ∧
      (st.pc 1).result eightMegabytes = some (8192 + 3 * 1024 * 1024) ∧
      ∀ b < st.committed, st.committedBytes b = true := by
  refine ⟨_, ?_, ?_, (pomai_arena_safe arenaCreateForVectorEx_pageOs
    twoRequests (steps 0 8 ++ steps 1 8) _ rfl).2.1⟩
  · decide +kernel
  · decide +kernel

/-- The first call moves the offset, then the second does, and then the commit
of the first fails. -/
def overtaken : List (Fin 2 × Outcome) :=
  let first : Fin 2 := ⟨0, Nat.two_pos⟩
  let second : Fin 2 := ⟨1, Nat.one_lt_two⟩
  steps first 2 ++ steps second 2 ++ steps first 3 ++
    [(first, ⟨true, false⟩)] ++ steps first 2 ++ steps second 6

/-- Both calls have returned, the first with `NULL`. -/
def overtakenState : PomaiState (Fin 2) :=
  (PomaiState.initial eightMegabytes (4096 + 2 * 1024 * 1024)).run
    eightMegabytes twoRequests overtaken

theorem overtakenState_finished :
    ∀ i, (overtakenState.pc i).finished = true := by
  decide +kernel

theorem pomai_arena_offset_iff_two :
    ¬ overtakenState.offset = eightMegabytes.payloadStart +
      ∑ i, if ((overtakenState.pc i).result eightMegabytes).isSome then
        requestSize twoRequests i else 0 := by
  rw [pomai_arena_offset_iff arenaCreateForVectorEx_pageOs twoRequests
    overtaken overtakenState rfl overtakenState_finished]
  decide +kernel

/-- The space of the first call stays reserved although it returned `NULL`. -/
theorem pomai_arena_leaks :
    ¬ ∀ (n : ℕ) (os : PrimOs) (capacity : Word) (commitOk : Bool)
        (arena : PomaiArena) (firstCommit : ℕ),
      arenaCreateForVectorEx os capacity commitOk =
        some (arena, firstCommit) →
      ∀ (request : Fin n → Word × Word) (schedule : List (Fin n × Outcome)),
        let st := (PomaiState.initial arena firstCommit).run arena request
          schedule
        (∀ i, (st.pc i).finished = true) →
          st.offset = arena.payloadStart +
            ∑ i, if ((st.pc i).result arena).isSome then requestSize request i
              else 0 := by
  intro hall
  have hoffset := hall 2 pageOs (8 * 1024 * 1024) true eightMegabytes
    (4096 + 2 * 1024 * 1024) arenaCreateForVectorEx_pageOs twoRequests
    overtaken overtakenState_finished
  revert hoffset
  decide +kernel

end Palloc
