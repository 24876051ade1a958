import Palloc.PageFreeLists
import Palloc.RandomStream

/-!
# Weak random seeds

`pa_random_init_ex` marks a context as weak when the operating system gave no
entropy, so that `_pa_random_reinit_if_weak` seeds it again later.  The mark
is set before `chacha_init` clears the whole context.
-/

namespace Palloc

/-! ## The calls -/

/-- The eight words of a weak key, from the value of `_pa_os_random_weak(0)`:
`x = _pa_random_shuffle(x); key[i] = (uint32_t)x; x++`. -/
def weakKeyWord : ℕ → BitVec 64 → BitVec 32
  | 0, x => (randomShuffle x).setWidth 32
  | i + 1, x => weakKeyWord i (randomShuffle x + 1)

def weakKey (x : BitVec 64) : Vector (BitVec 8) 32 :=
  Vector.ofFn fun b : Fin 32 =>
    (weakKeyWord (b.val / 4) x).extractLsb' (8 * (b.val % 4)) 8

/-- `pa_random_init_ex`.  `entropy` is what `_pa_prim_random_buf` gives, and
`weakSeed` is the value of `_pa_os_random_weak(0)`, which depends on the clock
and on where the code was loaded. -/
def randomInitEx (ctx : RandomCtx) (address : BitVec 64) (useWeak : Bool)
    (entropy : Option (Vector (BitVec 8) 32)) (weakSeed : BitVec 64) :
    RandomCtx :=
  match useWeak, entropy with
  | false, some key => chachaInit { ctx with weak := false } key address
  | _, _ => chachaInit { ctx with weak := true } (weakKey weakSeed) address

def randomInit (ctx : RandomCtx) (address : BitVec 64)
    (entropy : Option (Vector (BitVec 8) 32)) (weakSeed : BitVec 64) :
    RandomCtx :=
  randomInitEx ctx address false entropy weakSeed

def randomInitWeak (ctx : RandomCtx) (address : BitVec 64)
    (weakSeed : BitVec 64) : RandomCtx :=
  randomInitEx ctx address true none weakSeed

def randomReinitIfWeak (ctx : RandomCtx) (address : BitVec 64)
    (entropy : Option (Vector (BitVec 8) 32)) (weakSeed : BitVec 64) :
    RandomCtx :=
  if ctx.weak then randomInit ctx address entropy weakSeed else ctx

/-- `_pa_random_next`: again while the result is zero, which `fuel` bounds. -/
def randomNext : ℕ → RandomCtx → Option (BitVec 64 × RandomCtx)
  | 0, _ => none
  | fuel + 1, ctx =>
    let (high, ctx) := chachaNext32 ctx
    let (low, ctx) := chachaNext32 ctx
    let r := high.setWidth 64 <<< 32 ||| low.setWidth 64
    if r = 0 then randomNext fuel ctx else some (r, ctx)

/-! ## Runs -/

inductive Seeding where
  | weak
  | os
  deriving DecidableEq

/-- The contexts by address, and for those that were initialised where their
seed comes from.  A context that is split off shares the seed. -/
structure RandomState where
  ctx : BitVec 64 → RandomCtx
  seeding : BitVec 64 → Option Seeding

inductive RandomCall where
  | init (address : BitVec 64) (entropy : Option (Vector (BitVec 8) 32))
      (weakSeed : BitVec 64)
  | initWeak (address weakSeed : BitVec 64)
  | next (address : BitVec 64) (fuel : ℕ)
  | split (address addressNew : BitVec 64)
  | reinitIfWeak (address : BitVec 64)
      (entropy : Option (Vector (BitVec 8) 32)) (weakSeed : BitVec 64)

/-- The seed of an initialisation with this answer for entropy. -/
def seedingOf (entropy : Option (Vector (BitVec 8) 32)) : Seeding :=
  if entropy.isSome then .os else .weak

namespace RandomState

def setCtx (st : RandomState) (address : BitVec 64) (ctx : RandomCtx)
    (seeding : Option Seeding) : RandomState where
  ctx := Function.update st.ctx address ctx
  seeding := Function.update st.seeding address seeding

/-- One call; a call of `_pa_random_next` that does not return has no
result. -/
def step (st : RandomState) : RandomCall → Option RandomState
  | .init address entropy weakSeed =>
    some (st.setCtx address
      (randomInit (st.ctx address) address entropy weakSeed)
      (some (seedingOf entropy)))
  | .initWeak address weakSeed =>
    some (st.setCtx address
      (randomInitWeak (st.ctx address) address weakSeed) (some .weak))
  | .next address fuel =>
    (randomNext fuel (st.ctx address)).map fun result =>
      st.setCtx address result.2 (st.seeding address)
  | .split address addressNew =>
    some (st.setCtx addressNew
      (chachaSplit (st.ctx address) addressNew (st.ctx addressNew))
      (st.seeding address))
  | .reinitIfWeak address entropy weakSeed =>
    some (st.setCtx address
      (randomReinitIfWeak (st.ctx address) address entropy weakSeed)
      (if (st.ctx address).weak then some (seedingOf entropy)
        else st.seeding address))

/-- The mark of each initialised context tells where its seed comes from. -/
def MarksSeeding (st : RandomState) : Prop :=
  ∀ address seeding, st.seeding address = some seeding →
    ((st.ctx address).weak = true ↔ seeding = .weak)

/-- A reinitialisation with entropy leaves no weak seed. -/
def Upgraded (st : RandomState) : RandomCall → Prop
  | .reinitIfWeak address (some _) _ => st.seeding address ≠ some .weak
  | _ => True

/-- In every state of the run the marks are right, and each
reinitialisation with entropy upgrades a weak seed. -/
def WeakSeedsTracked (st : RandomState) : List RandomCall → Prop
  | [] => st.MarksSeeding
  | call :: calls =>
    st.MarksSeeding ∧ ∀ st', st.step call = some st' →
      st'.Upgraded call ∧ st'.WeakSeedsTracked calls

def SeedsFromOs (st : RandomState) : RandomCall → Prop
  | .init _ entropy _ => entropy.isSome
  | .initWeak _ _ => False
  | .reinitIfWeak address entropy _ =>
    (st.ctx address).weak = true → entropy.isSome
  | _ => True

def AllSeededFromOs (st : RandomState) : List RandomCall → Prop
  | [] => True
  | call :: calls =>
    st.SeedsFromOs call ∧ ∀ st', st.step call = some st' →
      st'.AllSeededFromOs calls

def start (ctx : BitVec 64 → RandomCtx) : RandomState :=
  ⟨ctx, fun _ => none⟩

end RandomState

/-! ## The mark -/

@[simp] theorem weak_chachaInit (ctx : RandomCtx)
    (key : Vector (BitVec 8) 32) (nonce : BitVec 64) :
    (chachaInit ctx key nonce).weak = false := rfl

@[simp] theorem weak_chachaSplit (ctx ctxNew : RandomCtx)
    (nonce : BitVec 64) :
    (chachaSplit ctx nonce ctxNew).weak = false := rfl

@[simp] theorem weak_chachaNext32 (ctx : RandomCtx) :
    (chachaNext32 ctx).2.weak = ctx.weak := by
  unfold chachaNext32
  split <;> rfl

@[simp] theorem weak_randomInitEx (ctx : RandomCtx) (address : BitVec 64)
    (useWeak : Bool) (entropy : Option (Vector (BitVec 8) 32))
    (weakSeed : BitVec 64) :
    (randomInitEx ctx address useWeak entropy weakSeed).weak = false := by
  unfold randomInitEx
  split <;> rfl

theorem weak_randomReinitIfWeak (ctx : RandomCtx) (address : BitVec 64)
    (entropy : Option (Vector (BitVec 8) 32)) (weakSeed : BitVec 64) :
    (randomReinitIfWeak ctx address entropy weakSeed).weak = false := by
  unfold randomReinitIfWeak randomInit
  split
  · simp
  · next hweak => simpa using hweak

theorem weak_randomNext {fuel : ℕ} {ctx : RandomCtx}
    {result : BitVec 64 × RandomCtx} (hresult : randomNext fuel ctx = some result) :
    result.2.weak = ctx.weak := by
  induction fuel generalizing ctx with
  | zero => simp [randomNext] at hresult
  | succ fuel ih =>
    simp only [randomNext] at hresult
    split at hresult
    · rw [ih hresult]
      simp
    · rw [← Option.some.inj hresult]
      simp

namespace RandomState

variable {st st' : RandomState} {call : RandomCall}

/-- Every context that is initialised has its seed from the operating system
and is not marked. -/
def AllFromOs (st : RandomState) : Prop :=
  ∀ address seeding, st.seeding address = some seeding →
    seeding = .os ∧ (st.ctx address).weak = false

theorem AllFromOs.marksSeeding (hall : st.AllFromOs) : st.MarksSeeding := by
  intro address seeding hseeding
  obtain ⟨hos, hweak⟩ := hall address seeding hseeding
  simp [hos, hweak]

theorem AllFromOs.setCtx (hall : st.AllFromOs) {address : BitVec 64}
    {ctx : RandomCtx} {new : Option Seeding}
    (hnew : ∀ seeding, new = some seeding →
      seeding = .os ∧ ctx.weak = false) :
    (st.setCtx address ctx new).AllFromOs := by
  intro other seeding hseeding
  by_cases heq : other = address
  · subst heq
    simp only [RandomState.setCtx, Function.update_self] at hseeding ⊢
    exact hnew seeding hseeding
  · simp only [RandomState.setCtx, Function.update_of_ne heq] at hseeding ⊢
    exact hall other seeding hseeding

theorem AllFromOs.step (hall : st.AllFromOs) (hseeds : st.SeedsFromOs call)
    (hstep : st.step call = some st') : st'.AllFromOs := by
  cases call with
  | init address entropy weakSeed =>
    simp only [RandomState.step, Option.some.injEq] at hstep
    subst hstep
    apply hall.setCtx
    intro seeding hnew
    have hentropy : entropy.isSome = true := hseeds
    simp only [seedingOf, hentropy, if_true, Option.some.injEq] at hnew
    exact ⟨hnew.symm, by simp [randomInit]⟩
  | initWeak address weakSeed => exact hseeds.elim
  | next address fuel =>
    simp only [RandomState.step, Option.map_eq_some_iff] at hstep
    obtain ⟨result, hresult, rfl⟩ := hstep
    apply hall.setCtx
    intro seeding hnew
    rw [weak_randomNext hresult]
    exact hall address seeding hnew
  | split address addressNew =>
    simp only [RandomState.step, Option.some.injEq] at hstep
    subst hstep
    apply hall.setCtx
    intro seeding hnew
    exact ⟨(hall address seeding hnew).1, by simp⟩
  | reinitIfWeak address entropy weakSeed =>
    simp only [RandomState.step, Option.some.injEq] at hstep
    subst hstep
    apply hall.setCtx
    intro seeding hnew
    refine ⟨?_, weak_randomReinitIfWeak _ _ _ _⟩
    split at hnew
    · next hweak =>
      have hentropy : entropy.isSome = true := hseeds hweak
      simp only [seedingOf, hentropy, if_true, Option.some.injEq] at hnew
      exact hnew.symm
    · exact (hall address seeding hnew).1

theorem AllFromOs.upgraded (hall : st.AllFromOs) (call : RandomCall) :
    st.Upgraded call := by
  unfold Upgraded
  split
  · intro hweak
    have hos := (hall _ _ hweak).1
    contradiction
  · trivial

theorem MarksSeeding.seedsFromOs (hstep : st.step call = some st')
    (hmarks : st'.MarksSeeding) : st.SeedsFromOs call := by
  cases call with
  | init address entropy weakSeed =>
    simp only [RandomState.step, Option.some.injEq] at hstep
    subst hstep
    have hmark := hmarks address (seedingOf entropy)
      (by simp [RandomState.setCtx])
    by_contra hentropy
    have hnone : entropy.isSome = false := by
      simpa [SeedsFromOs] using hentropy
    simp [RandomState.setCtx, randomInit, seedingOf, hnone] at hmark
  | initWeak address weakSeed =>
    simp only [RandomState.step, Option.some.injEq] at hstep
    subst hstep
    have hmark := hmarks address .weak (by simp [RandomState.setCtx])
    simp [RandomState.setCtx, randomInitWeak] at hmark
  | next address fuel => trivial
  | split address addressNew => trivial
  | reinitIfWeak address entropy weakSeed =>
    simp only [RandomState.step, Option.some.injEq] at hstep
    subst hstep
    intro hweak
    have hmark := hmarks address (seedingOf entropy)
      (by simp [RandomState.setCtx, hweak])
    by_contra hentropy
    have hnone : entropy.isSome = false := by simpa using hentropy
    simp [RandomState.setCtx, weak_randomReinitIfWeak, seedingOf, hnone]
      at hmark

theorem seedsFromOs_of_step_eq_none (hstep : st.step call = none) :
    st.SeedsFromOs call := by
  cases call with
  | next address fuel => trivial
  | _ => simp [RandomState.step] at hstep

theorem MarksSeeding.of_weakSeedsTracked {calls : List RandomCall}
    (htracked : st.WeakSeedsTracked calls) : st.MarksSeeding := by
  cases calls with
  | nil => exact htracked
  | cons call calls => exact htracked.1

theorem AllFromOs.weakSeedsTracked_iff {calls : List RandomCall}
    (hall : st.AllFromOs) :
    st.WeakSeedsTracked calls ↔ st.AllSeededFromOs calls := by
  induction calls generalizing st with
  | nil => exact ⟨fun _ => trivial, fun _ => hall.marksSeeding⟩
  | cons call calls ih =>
    constructor
    · intro htracked
      have hseeds : st.SeedsFromOs call := by
        cases hstep : st.step call with
        | none => exact seedsFromOs_of_step_eq_none hstep
        | some st' =>
          have hnext := (htracked.2 st' hstep).2
          exact MarksSeeding.seedsFromOs hstep (.of_weakSeedsTracked hnext)
      refine ⟨hseeds, ?_⟩
      intro st' hstep
      exact (ih (hall.step hseeds hstep)).mp (htracked.2 st' hstep).2
    · intro hseeded
      refine ⟨hall.marksSeeding, ?_⟩
      intro st' hstep
      have hnext := hall.step hseeded.1 hstep
      exact ⟨hnext.upgraded call, (ih hnext).mpr (hseeded.2 st' hstep)⟩

/-- Weak seeds are tracked in exactly the runs without weak seeds: the mark
does not outlive the initialisation that sets it. -/
theorem weak_seeds_tracked_iff (ctx : BitVec 64 → RandomCtx)
    (calls : List RandomCall) :
    (start ctx).WeakSeedsTracked calls ↔
      (start ctx).AllSeededFromOs calls := by
  apply AllFromOs.weakSeedsTracked_iff
  intro address seeding hseeding
  simp [start] at hseeding

/-- No entropy at the initialisation: the context is not marked, and the
reinitialisation with entropy leaves its seed as it is. -/
theorem weak_seed_lost :
    ¬ (start fun _ => RandomCtx.zero).WeakSeedsTracked
      [.init 0x10000 none 1,
        .reinitIfWeak 0x10000 (some (Vector.replicate 32 7)) 2] := by
  intro htracked
  have hinit := (htracked.2 _ rfl).2.1
  have hmark := hinit 0x10000 .weak (by simp [RandomState.setCtx, seedingOf])
  simp [RandomState.setCtx, randomInit] at hmark

end RandomState

end Palloc
