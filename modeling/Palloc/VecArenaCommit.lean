import Palloc.VecArenaRun

/-!
# The memory behind a vector arena

`committed` is meant to say which bytes of the payload the operating system
has committed.  The run of an arena is extended by the calls it makes to
`_pa_prim_commit` and `_pa_prim_decommit`, and by the bytes that these calls
leave committed.  The allocation paths move the watermark only after a commit
that succeeded.  Creation moves it without looking at the outcome, so the
watermark tells the truth from creation on or from the first reset on.
-/

namespace Palloc

open MachineWord

inductive OsCall where
  | commit (start size : ℕ) (ok : Bool)
  | decommit (start size : ℕ)
  deriving Repr, DecidableEq

def OsCall.apply (backed : ℕ → Bool) : OsCall → ℕ → Bool
  | .commit start size ok => fun byte =>
      backed byte || (ok && start ≤ byte && byte < start + size)
  | .decommit start size => fun byte =>
      backed byte && !(start ≤ byte && byte < start + size)

namespace VecArena

/-- The call of `commitTo`. -/
def commitToCalls (arena : VecArena) (newUsed : ℕ) (commitOk : Bool) :
    List OsCall :=
  if arena.committed < newUsed then
    let need := wordAlignUp newUsed arena.commitGrain
    if need < newUsed then []
    else
      let need := if arena.capacity < need then arena.capacity else need
      let delta := need - arena.committed
      if 0 < delta then
        [.commit ((arena.base + arena.committed) % wordSize) delta commitOk]
      else []
  else []

/-- The call of `bump`. -/
def bumpCalls (arena : VecArena) (bytes : ℕ) (commitOk : Bool) :
    List OsCall :=
  if maxWord - arena.used < bytes then []
  else
    let newUsed := (arena.used + bytes) % wordSize
    if arena.capacity < newUsed then []
    else if arena.maxSize ≠ 0 ∧ arena.maxSize < newUsed then []
    else arena.commitToCalls newUsed commitOk

/-- The calls of `pa_vec_arena_alloc`. -/
def allocCalls (arena : VecArena) (size : ℕ) (commitOk : Bool) :
    List OsCall :=
  if size = 0 then []
  else
    let alignedSize := wordAlignUp size arena.alignment
    if alignedSize < size then []
    else arena.bumpCalls alignedSize commitOk

/-- The calls of `pa_vec_arena_alloc_batch`. -/
def allocBatchCalls (arena : VecArena) (count size : ℕ) (commitOk : Bool) :
    List OsCall :=
  if count = 0 ∨ size = 0 then []
  else
    let alignedSize := wordAlignUp size arena.alignment
    if alignedSize < size then []
    else
      match countSizeOverflow count alignedSize with
      | none => []
      | some totalBytes => arena.bumpCalls totalBytes commitOk

/-- The calls of `pa_vec_arena_reset`. -/
def resetCalls (arena : VecArena) : List OsCall :=
  if 0 < arena.committed ∧ arena.useOsReserve then
    [.decommit arena.base arena.committed]
  else []

/-- The first commit of `pa_vec_arena_create_ex`, on the arena that it
returns. -/
def createCalls (arena : VecArena) (commitOk : Bool) : List OsCall :=
  if arena.useOsReserve ∧ 0 < arena.capacity then
    [.commit arena.base arena.committed commitOk]
  else []

end VecArena

structure BackedState where
  st : VecState
  backed : ℕ → Bool

/-- The calls to the operating system that a call makes. -/
def VecState.osCalls (st : VecState) : VecCall → List OsCall
  | .alloc size commitOk => st.arena.allocCalls size commitOk
  | .allocBatch count size commitOk _ =>
      st.arena.allocBatchCalls count size commitOk
  | .reset => st.arena.resetCalls
  | .clear => []
  | .setMaxSize _ => []

def BackedState.call (run : BackedState) (call : VecCall) : BackedState :=
  ⟨run.st.call call, (run.st.osCalls call).foldl OsCall.apply run.backed⟩

/-- A new arena, of which nothing was committed before. -/
def BackedState.created (arena : VecArena) (commitOk : Bool) : BackedState :=
  ⟨⟨arena, []⟩,
    (arena.createCalls commitOk).foldl OsCall.apply fun _ => false⟩

def BackedState.Truthful (run : BackedState) : Prop :=
  ∀ byte, run.st.arena.base ≤ byte →
    byte < run.st.arena.base + run.st.arena.committed →
    run.backed byte = true

/-- Every byte of a range that was handed out is committed. -/
def BackedState.RangesBacked (run : BackedState) : Prop :=
  ∀ range ∈ run.st.handed, ∀ byte, range.1 ≤ byte →
    byte < range.1 + range.2 → run.backed byte = true

/-! ## The allocation paths -/

structure CommitEffect (arena arena' : VecArena) (calls : List OsCall) :
    Prop where
  base_eq : arena'.base = arena.base
  mono : arena.committed ≤ arena'.committed
  backed_iff : ∀ (backed : ℕ → Bool) (byte : ℕ),
    calls.foldl OsCall.apply backed byte = true ↔
      backed byte = true ∨
        (arena.base + arena.committed ≤ byte ∧
          byte < arena.base + arena'.committed)

variable {arena arena' : VecArena}

theorem CommitEffect.nothing (hbase : arena'.base = arena.base)
    (hcommitted : arena'.committed = arena.committed) :
    CommitEffect arena arena' [] := by
  constructor
  · exact hbase
  · exact hcommitted.ge
  · intro backed byte
    rw [hcommitted, List.foldl_nil]
    constructor
    · intro hbacked
      exact Or.inl hbacked
    · rintro (hbacked | ⟨hle, hlt⟩)
      · exact hbacked
      · omega

theorem VecArena.Valid.commitToCalls_spec (hvalid : arena.Valid)
    {newUsed : ℕ} (commitOk : Bool) (hcapacity : newUsed ≤ arena.capacity) :
    (arena.commitTo newUsed commitOk = none ∧
      CommitEffect arena arena (arena.commitToCalls newUsed commitOk)) ∨
    ∃ arena', arena.commitTo newUsed commitOk = some arena' ∧
      CommitEffect arena arena' (arena.commitToCalls newUsed commitOk) := by
  have hend := hvalid.capacityLe
  have hcommitted := hvalid.committedLe
  unfold VecArena.commitTo VecArena.commitToCalls
  split
  · rename_i hlow
    dsimp only
    generalize wordAlignUp newUsed arena.commitGrain = need
    split
    · exact Or.inl ⟨rfl, .nothing rfl rfl⟩
    generalize hclamp :
      (if arena.capacity < need then arena.capacity else need) = clamped
    have hclamped : arena.committed < clamped := by
      rw [← hclamp]
      split <;> omega
    have hdelta : 0 < clamped - arena.committed := by omega
    rw [if_pos hdelta, if_pos hdelta, Nat.mod_eq_of_lt (by omega)]
    cases commitOk with
    | false =>
        left
        refine ⟨rfl, rfl, le_rfl, ?_⟩
        intro backed byte
        simp only [List.foldl_cons, List.foldl_nil, OsCall.apply,
          Bool.false_and, Bool.or_false]
        exact (CommitEffect.nothing rfl rfl).backed_iff backed byte
    | true =>
        right
        refine ⟨_, rfl, rfl, le_of_lt hclamped, ?_⟩
        intro backed byte
        have hsum : arena.base + arena.committed +
            (clamped - arena.committed) = arena.base + clamped := by
          omega
        simp only [List.foldl_cons, List.foldl_nil, OsCall.apply, hsum,
          Bool.true_and, Bool.or_eq_true, Bool.and_eq_true, decide_eq_true_eq]
  · exact Or.inr ⟨arena, rfl, .nothing rfl rfl⟩

theorem VecArena.Valid.bumpCalls_spec (hvalid : arena.Valid) (bytes : ℕ)
    (commitOk : Bool) :
    (arena.bump bytes commitOk = none ∧
      CommitEffect arena arena (arena.bumpCalls bytes commitOk)) ∨
    ∃ arena', arena.bump bytes commitOk = some arena' ∧
      CommitEffect arena arena' (arena.bumpCalls bytes commitOk) := by
  unfold VecArena.bump VecArena.bumpCalls
  split
  · exact Or.inl ⟨rfl, .nothing rfl rfl⟩
  dsimp only
  split
  · exact Or.inl ⟨rfl, .nothing rfl rfl⟩
  rename_i hcap
  split
  · exact Or.inl ⟨rfl, .nothing rfl rfl⟩
  rcases hvalid.commitToCalls_spec commitOk (not_lt.mp hcap) with
    ⟨hnone, heffect⟩ | ⟨committedArena, hsome, heffect⟩
  · rw [hnone]
    exact Or.inl ⟨rfl, heffect⟩
  · rw [hsome]
    exact Or.inr ⟨_, rfl, heffect.base_eq, heffect.mono, heffect.backed_iff⟩

theorem VecArena.Valid.allocCalls_spec (hvalid : arena.Valid) (size : ℕ)
    (commitOk : Bool) :
    CommitEffect arena (arena.alloc size commitOk).2
      (arena.allocCalls size commitOk) := by
  unfold VecArena.alloc VecArena.allocCalls
  split
  · exact .nothing rfl rfl
  dsimp only
  split
  · exact .nothing rfl rfl
  rcases hvalid.bumpCalls_spec (wordAlignUp size arena.alignment) commitOk with
    ⟨hnone, heffect⟩ | ⟨arena', hsome, heffect⟩
  · rw [hnone]
    exact heffect
  · rw [hsome]
    exact heffect

theorem VecArena.Valid.allocBatchCalls_spec (hvalid : arena.Valid)
    (count size : ℕ) (commitOk hasAvx2 : Bool) :
    CommitEffect arena (arena.allocBatch count size commitOk hasAvx2).2
      (arena.allocBatchCalls count size commitOk) := by
  unfold VecArena.allocBatch VecArena.allocBatchCalls
  split
  · exact .nothing rfl rfl
  dsimp only
  split
  · exact .nothing rfl rfl
  cases countSizeOverflow count (wordAlignUp size arena.alignment) with
  | none => exact .nothing rfl rfl
  | some totalBytes =>
      dsimp only
      rcases hvalid.bumpCalls_spec totalBytes commitOk with
        ⟨hnone, heffect⟩ | ⟨arena', hsome, heffect⟩
      · rw [hnone]
        exact heffect
      · rw [hsome]
        exact heffect

/-! ## Runs -/

variable {start : VecArena} {run : BackedState}

theorem VecInvariant.commitEffect (hinv : VecInvariant start run.st)
    {call : VecCall} (hcall : call ≠ .reset) :
    CommitEffect run.st.arena (run.call call).st.arena
      (run.st.osCalls call) := by
  cases call with
  | alloc size commitOk => exact hinv.valid.allocCalls_spec size commitOk
  | allocBatch count size commitOk hasAvx2 =>
      exact hinv.valid.allocBatchCalls_spec count size commitOk hasAvx2
  | reset => exact absurd rfl hcall
  | clear => exact .nothing rfl rfl
  | setMaxSize maxBytes => exact .nothing rfl rfl

theorem reset_committed (run : BackedState)
    (hreserve : run.st.arena.useOsReserve = true) :
    (run.call .reset).st.arena.committed = 0 := by
  show run.st.arena.reset.committed = 0
  unfold VecArena.reset
  split
  · rfl
  · rename_i hzero
    rw [hreserve] at hzero
    simpa using hzero

theorem BackedState.Truthful.call (h : run.Truthful)
    (hinv : VecInvariant start run.st)
    (hreserve : run.st.arena.useOsReserve = true) (call : VecCall) :
    (run.call call).Truthful := by
  intro byte hle hlt
  by_cases hcall : call = .reset
  · subst hcall
    rw [reset_committed run hreserve] at hlt
    omega
  · have heffect := hinv.commitEffect hcall
    rw [heffect.base_eq] at hle hlt
    apply (heffect.backed_iff run.backed byte).mpr
    by_cases hold : byte < run.st.arena.base + run.st.arena.committed
    · exact Or.inl (h byte hle hold)
    · exact Or.inr ⟨not_lt.mp hold, hlt⟩

theorem unbacked_call (hinv : VecInvariant start run.st) {call : VecCall}
    (hcall : call ≠ .reset) (hpos : 0 < run.st.arena.committed)
    (hbacked : run.backed run.st.arena.base = false) :
    0 < (run.call call).st.arena.committed ∧
      (run.call call).backed (run.call call).st.arena.base = false := by
  have heffect := hinv.commitEffect hcall
  have hmono := heffect.mono
  constructor
  · omega
  · rw [heffect.base_eq]
    apply Bool.eq_false_iff.mpr
    intro htrue
    rcases (heffect.backed_iff run.backed _).mp htrue with hold | ⟨hle, _⟩
    · rw [hbacked] at hold
      cases hold
    · omega

theorem VecState.call_useOsReserve (hinv : VecInvariant start run.st)
    (call : VecCall) :
    (run.call call).st.arena.useOsReserve = run.st.arena.useOsReserve := by
  cases call with
  | alloc size commitOk =>
      show (run.st.arena.alloc size commitOk).2.useOsReserve = _
      rcases hinv.valid.alloc_spec size.isLt commitOk with
        hfail | ⟨p, arena, hok, hadvance⟩
      · rw [hfail]
      · rw [hok, hadvance.same]
  | allocBatch count size commitOk hasAvx2 =>
      show (run.st.arena.allocBatch count size commitOk hasAvx2).2.useOsReserve
        = _
      rcases hinv.valid.allocBatch_spec size.isLt count commitOk hasAvx2 with
        hfail | ⟨ptrs, arena, hok, hadvance⟩
      · rw [hfail]
      · rw [hok, hadvance.same]
  | reset =>
      show run.st.arena.reset.useOsReserve = _
      unfold VecArena.reset
      split
      · rfl
      · rfl
  | clear => rfl
  | setMaxSize maxBytes => rfl

/-- Over a run: the watermark stays truthful once it is, a reset makes it so,
and otherwise the first byte has no memory. -/
theorem truthful_run_iff (calls : List VecCall)
    (hinv : VecInvariant start run.st)
    (hreserve : run.st.arena.useOsReserve = true)
    (hstart : run.Truthful ∨ 0 < run.st.arena.committed ∧
      run.backed run.st.arena.base = false) :
    (calls.foldl BackedState.call run).Truthful ↔
      run.Truthful ∨ .reset ∈ calls := by
  induction calls generalizing run with
  | nil => simp
  | cons call calls ih =>
      have hinv' : VecInvariant start (run.call call).st := hinv.call call
      have hreserve' : (run.call call).st.arena.useOsReserve = true :=
        (VecState.call_useOsReserve hinv call).trans hreserve
      rw [List.foldl_cons, List.mem_cons]
      rcases hstart with htruthful | ⟨hpos, hbacked⟩
      · have hnext := htruthful.call hinv hreserve call
        rw [ih hinv' hreserve' (Or.inl hnext)]
        exact iff_of_true (Or.inl hnext) (Or.inl htruthful)
      · have hfalse : ¬ run.Truthful := by
          intro htruthful
          have hbase := htruthful run.st.arena.base le_rfl (by omega)
          rw [hbacked] at hbase
          cases hbase
        by_cases hcall : call = .reset
        · subst hcall
          have hnext : (run.call .reset).Truthful := by
            intro byte hle hlt
            rw [reset_committed run hreserve] at hlt
            omega
          rw [ih hinv' hreserve' (Or.inl hnext)]
          exact iff_of_true (Or.inl hnext) (Or.inr (Or.inl rfl))
        · have hnext := unbacked_call hinv hcall hpos hbacked
          have hnextFalse : ¬ (run.call call).Truthful := by
            intro htruthful
            have hbase := htruthful (run.call call).st.arena.base le_rfl
              (by omega)
            rw [hnext.2] at hbase
            cases hbase
          rw [ih hinv' hreserve' (Or.inr hnext)]
          constructor
          · rintro (htruthful | hmem)
            · exact absurd htruthful hnextFalse
            · exact Or.inr (Or.inr hmem)
          · rintro (htruthful | heq | hmem)
            · exact absurd htruthful hfalse
            · exact absurd heq.symm hcall
            · exact Or.inr hmem

theorem BackedState.Truthful.rangesBacked (h : run.Truthful)
    (hinv : VecInvariant start run.st) : run.RangesBacked := by
  intro range hrange byte hle hlt
  have hbase := hinv.handedBase range hrange
  have hend := hinv.handedEnd range hrange
  have hused := hinv.valid.usedLe
  have hstart := hinv.base_eq
  apply h byte
  · omega
  · omega

/-! ## From creation on -/

theorem vecArenaCreateEx_committed {os : PrimOs} {heap : Option ℕ}
    {structOk : Bool} {initialSize alignment : Word}
    (hreserve : os.virtualReserve = true)
    (hcreate :
      vecArenaCreateEx os heap structOk initialSize alignment = some arena) :
    arena.useOsReserve = true ∧ 0 < arena.capacity ∧ 0 < arena.committed := by
  have hcreated := (vecArenaCreateEx_spec alignment.isLt hcreate).2
  have hgrain := os.commitGrain_spec.1
  unfold vecArenaCreateEx at hcreate
  split at hcreate
  · cases hcreate
  rename_i hnull
  have hinitial : 0 < initialSize.val := by
    apply Nat.pos_of_ne_zero
    intro hzero
    exact hnull (Or.inr (Or.inl hzero))
  have hcapacity : 0 < arena.capacity := by
    rw [hcreated.capacity_eq]
    exact hinitial.trans_le (le_exactAlignUp os.pageSize_pos)
  dsimp only at hcreate
  split at hcreate
  · cases hcreate
  split at hcreate
  · cases hcreate
  generalize (if os.pageSize < alignment.val then alignment.val else 0) =
    extra at hcreate
  generalize (if os.pageSize < alignment.val then alignment.val
    else os.pageSize) = tryAlign at hcreate
  split at hcreate
  · cases hcreate
  split at hcreate
  · cases hcreate
  split at hcreate
  · cases hcreate
  rcases Option.map_eq_some_iff.mp hcreate with ⟨osBlock, _, hinit⟩
  refine ⟨?_, hcapacity, ?_⟩
  · rw [← hinit]
    exact hreserve
  · have hcommitted : arena.committed =
        if os.virtualReserve ∧ 0 < arena.capacity then
          if os.commitGrain < arena.capacity then os.commitGrain
          else arena.capacity
        else if os.virtualReserve then 0 else arena.capacity := by
      rw [← hinit]
      rfl
    rw [hcommitted, if_pos ⟨hreserve, hcapacity⟩]
    split
    · exact hgrain
    · exact hcapacity

/-- The watermark is truthful, and what was handed out is committed, if and
only if the commit at creation succeeded or the arena was reset since. -/
theorem committed_watermark_iff {os : PrimOs} {heap : Option ℕ}
    {structOk : Bool} {initialSize alignment : Word}
    (hreserve : os.virtualReserve = true)
    (hcreate :
      vecArenaCreateEx os heap structOk initialSize alignment = some arena)
    (commitOk : Bool) (calls : List VecCall) (run : BackedState)
    (hrun : run =
      calls.foldl BackedState.call (BackedState.created arena commitOk)) :
    (run.Truthful ∧ run.RangesBacked) ↔
      commitOk = true ∨ .reset ∈ calls := by
  have hvalid := (vecArenaCreateEx_spec alignment.isLt hcreate).1
  rcases vecArenaCreateEx_committed hreserve hcreate with
    ⟨huse, hcapacity, hcommitted⟩
  have hcalls : arena.createCalls commitOk =
      [.commit arena.base arena.committed commitOk] := by
    unfold VecArena.createCalls
    rw [if_pos ⟨huse, hcapacity⟩]
  have hinitial : VecInvariant arena
      (BackedState.created arena commitOk).st := .initial hvalid
  have hbacked : ∀ byte, (BackedState.created arena commitOk).backed byte =
      (commitOk && arena.base ≤ byte &&
        byte < arena.base + arena.committed) := by
    intro byte
    unfold BackedState.created
    rw [hcalls]
    simp [OsCall.apply]
  have htruthful : (BackedState.created arena commitOk).Truthful ↔
      commitOk = true := by
    constructor
    · intro h
      have hbase : (BackedState.created arena commitOk).backed arena.base =
          true := h arena.base le_rfl (Nat.lt_add_of_pos_right hcommitted)
      rw [hbacked, Bool.and_eq_true, Bool.and_eq_true] at hbase
      exact hbase.1.1
    · intro hok byte hle hlt
      have hle : arena.base ≤ byte := hle
      have hlt : byte < arena.base + arena.committed := hlt
      rw [hbacked, hok]
      simp [hle, hlt]
  have hstart : (BackedState.created arena commitOk).Truthful ∨
      0 < (BackedState.created arena commitOk).st.arena.committed ∧
        (BackedState.created arena commitOk).backed
          (BackedState.created arena commitOk).st.arena.base = false := by
    cases hok : commitOk with
    | true =>
        rw [hok] at htruthful
        exact Or.inl (htruthful.mpr rfl)
    | false =>
        rw [hok] at hbacked
        exact Or.inr ⟨hcommitted, hbacked arena.base⟩
  have hrunIff := truthful_run_iff calls hinitial huse hstart
  have hinv : VecInvariant arena run.st := by
    rw [hrun]
    clear hrunIff hstart htruthful hbacked hrun
    generalize BackedState.created arena commitOk = first at hinitial
    induction calls generalizing first with
    | nil => exact hinitial
    | cons call calls ih => exact ih _ (hinitial.call call)
  rw [← htruthful, ← hrunIff, ← hrun]
  constructor
  · exact And.left
  · intro h
    exact ⟨h, h.rangesBacked hinv⟩

theorem committed_watermark_iff_pageArena :
    let run := [VecCall.alloc 10 true, .alloc 70 true, .reset,
      .alloc 10 true].foldl BackedState.call (BackedState.created pageArena true)
    run.Truthful ∧ run.RangesBacked :=
  (committed_watermark_iff rfl vecArenaCreateEx_pageOs true _ _ rfl).mpr
    (Or.inl rfl)

/-- The commit at creation fails, and the next call hands out ten bytes without
memory. -/
theorem first_commit_lost :
    vecArenaCreateEx pageOs (some 0) true (100 : Word) (64 : Word) =
        some pageArena ∧
      let run := [VecCall.alloc 10 true].foldl BackedState.call
        (BackedState.created pageArena false)
      run.st.handed = [(4096, 10)] ∧ run.st.arena.committed = 4096 ∧
        run.backed 4096 = false ∧
        ¬ (run.Truthful ∧ run.RangesBacked) := by
  refine ⟨vecArenaCreateEx_pageOs, by decide +kernel, by decide +kernel,
    by decide +kernel, ?_⟩
  rintro ⟨htruthful, _⟩
  have hbacked := htruthful 4096 (by decide +kernel) (by decide +kernel)
  revert hbacked
  decide +kernel

end Palloc
