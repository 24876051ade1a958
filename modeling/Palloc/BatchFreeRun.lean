import Palloc.BatchFreeSteps
import Mathlib.Logic.Relation

/-!
# Every block of the array is freed once

In a run the steps of the call alternate in any way with steps of the other
threads.  When the call returns, the blocks that it has handed over are the
blocks of the array, each once, and no bucket has a chain left.
-/

namespace Palloc

open LinkedChain Relation

section Steps

variable {pages : BatchPages} {heapsOf : ℕ → Set ℕ}
  {ptrs : List (Option Addr)} {call : BatchCall} {st : BatchState}

/-- The block of a pointer of the array that is not its own block start is
found through the flag of its page. -/
theorem block_eq (h : BatchInvariant pages heapsOf ptrs st)
    (hlive : ∀ p, some p ∈ ptrs → pages.Live p) {p : Addr}
    (hp : some p ∈ st.pc.rest) :
    (if st.mem.hasAligned (pages.pageOf p) then
      pages.ptrUnalign (pages.pageOf p) p else p) = pages.blockOf p := by
  cases haligned : st.mem.hasAligned (pages.pageOf p) with
  | true => exact (hlive p (h.rest (some p) hp)).ptrUnalign
  | false =>
      simp only [Bool.false_eq_true, if_false]
      by_contra hne
      have htrue := h.fits.aligned p hp (Ne.symm hne)
      rw [haligned] at htrue
      cases htrue

theorem batchStep_flush (pages : BatchPages) (call : BatchCall) (fail : Bool)
    {b : ℕ} {pc : FreePc} {heldUp : Option HeldUp}
    (hpc : st.pc = .flush b pc heldUp) (hbusy : pc ≠ .done)
    {bucket : Bucket} (hbucket : st.buckets b = some bucket) :
    batchStep pages call fail st =
      let result := flushStep bucket.page bucket.head bucket.tail fail
        st.mem.toFreeMemory pc
      let handed := flushHanded bucket pc result.1
      let bucket' :=
        if handed = [] then bucket else { bucket with blocks := [] }
      (((st.setMem result.2).setBucket b (some bucket')).hand handed).goto
        (.flush b result.1 heldUp) := by
  unfold batchStep
  rw [hpc]
  cases pc with
  | done => exact absurd rfl hbusy
  | load => simp only [hbucket]
  | exchange tfree => simp only [hbucket]
  | loadHeap => simp only [hbucket]
  | loadDelayed heap => simp only [hbucket]
  | pushDelayed heap dfree => simp only [hbucket]
  | loadReset => simp only [hbucket]
  | reset tfree => simp only [hbucket]

/-- What a flush hands over belongs to its page and goes to one of its
heaps. -/
theorem flushHanded_own (h : BatchInvariant pages heapsOf ptrs st) {b : ℕ}
    {bucket : Bucket} (hbucket : st.buckets b = some bucket) {pc : FreePc}
    (hheap : pc.HeapIn (heapsOf bucket.page)) (pc' : FreePc) :
    ∀ entry ∈ flushHanded bucket pc pc', entry.Own pages heapsOf ptrs := by
  intro entry hentry
  unfold flushHanded at hentry
  split at hentry
  · rw [List.mem_singleton.mp hentry]
    exact h.ownPage b bucket hbucket
  · rw [List.mem_singleton.mp hentry]
    exact ⟨hheap, h.ownPage b bucket hbucket⟩
  · cases hentry

theorem batchStep_kept (h : BatchInvariant pages heapsOf ptrs st)
    (hnodup : (pages.arrayBlocks ptrs).Nodup)
    (hlive : ∀ p, some p ∈ ptrs → pages.Live p) (fail : Bool) :
    BatchKept pages heapsOf ptrs st (batchStep pages call fail st) := by
  cases hpc : st.pc with
  | done =>
      have hstep : batchStep pages call fail st = st := by
        unfold batchStep
        rw [hpc]
      rw [hstep]
      exact ⟨h, [], (List.append_nil _).symm, BatchInvariant.listsGrow_refl _⟩
  | insert b held =>
      have hstep : batchStep pages call fail st =
          (st.insertBlock b held.page held.block).goto (.scan held.rest) := by
        unfold batchStep
        rw [hpc]
      rw [hstep]
      exact h.insert hnodup hpc
  | drain b =>
      have hnow : ∀ b' pc heldUp, st.pc ≠ .flush b' pc heldUp := by
        intro b' pc heldUp heq
        rw [hpc] at heq
        cases heq
      unfold batchStep
      rw [hpc]
      dsimp only
      split
      · split
        · rename_i hnone
          apply h.goto (by rw [hpc]; rfl) _ hnow
          · intro b' pc' heldUp heq
            cases heq
          · intro b' pc' held heq
            cases heq
          · intro b' held heq
            cases heq
          · intro b' hdrain b'' hlt
            rcases hdrain with hdrain | ⟨pc, hflush⟩
            · cases hdrain
              by_cases hcase : b'' = b
              · rw [hcase]
                exact hnone
              · exact h.drained b (Or.inl hpc) b'' (by omega)
            · cases hflush
          · intro hdone
            cases hdone
          · intro p hp
            cases hp
        · rename_i hsome
          apply h.goto (by rw [hpc]; rfl) _ hnow
          · intro b' pc' heldUp heq
            cases heq
            exact ⟨rfl, hsome⟩
          · intro b' pc' held heq
            cases heq
          · intro b' held heq
            cases heq
          · intro b' hdrain b'' hlt
            rcases hdrain with hdrain | ⟨pc, hflush⟩
            · cases hdrain
            · cases hflush
              exact h.drained b (Or.inl hpc) b'' hlt
          · intro hdone
            cases hdone
          · intro p hp
            cases hp
      · rename_i hge
        exact h.finish hpc hge call.ptrs
  | flush b pc heldUp =>
      by_cases hdone : pc = .done
      · subst hdone
        unfold batchStep
        rw [hpc]
        cases heldUp with
        | none =>
            apply h.clear hpc
            · rw [hpc]
              rfl
            · rw [hpc]
              rfl
            · exact Or.inl ⟨rfl, rfl⟩
        | some held =>
            apply h.clear hpc
            · rw [hpc]
              rfl
            · rw [hpc]
              rfl
            · exact Or.inr ⟨held, rfl, rfl⟩
      · rcases h.flushing b pc heldUp hpc with ⟨bucket, hbucket, -, hheap⟩
        rw [batchStep_flush pages call fail hpc hdone hbucket]
        have hspec := flushStep_spec bucket st.mem.toFreeMemory fail hheap
          (fun hload => h.fits.busyHeap b heldUp bucket (by rw [hpc, hload])
            hbucket) (h.fits.heaps bucket.page)
        exact h.flush hnodup hpc hbucket hspec.1 hspec.2
          (flushStep_past _ _ _ fail _) rfl
          (flushHanded_own h hbucket hheap _)
  | scan rest =>
      have hnow : ∀ b' pc heldUp, st.pc ≠ .flush b' pc heldUp := by
        intro b' pc heldUp heq
        rw [hpc] at heq
        cases heq
      cases rest with
      | nil =>
          unfold batchStep
          rw [hpc]
          dsimp only
          apply h.goto (by rw [hpc]; rfl) _ hnow
          · intro b' pc' heldUp heq
            cases heq
          · intro b' pc' held heq
            cases heq
          · intro b' held heq
            cases heq
          · intro b' hdrain b'' hlt
            rcases hdrain with hdrain | ⟨pc, hflush⟩
            · cases hdrain
              omega
            · cases hflush
          · intro hdone
            cases hdone
          · intro p hp
            cases hp
      | cons p rest =>
          cases p with
          | none =>
              unfold batchStep
              rw [hpc]
              dsimp only
              exact h.skip hpc
          | some p =>
              have hp : some p ∈ st.pc.rest := by
                rw [hpc]
                exact List.mem_cons_self
              unfold batchStep
              rw [hpc]
              dsimp only
              split
              · exact h.free hpc
              · split
                · exact h.free hpc
                split
                · exact h.free hpc
                · rw [block_eq h hlive hp]
                  exact h.place hpc (BatchPages.bucketOf_lt ..)

end Steps

/-! ## The call returns -/

/-- How far the flush is from its end when nobody interferes. -/
def flushRank (mem : FreeMemory) (page : ℕ) : FreePc → ℕ
  | .load => 10
  | .exchange tfree => if mem.xthreadFree page = tfree then 8 else 9
  | .loadHeap => 7
  | .loadDelayed _ => 6
  | .pushDelayed heap dfree =>
      if mem.threadDelayedFree heap = dfree then 4 else 5
  | .loadReset => 3
  | .reset tfree => if mem.xthreadFree page = tfree then 1 else 2
  | .done => 0

theorem flushRank_lt (mem : FreeMemory) (bucket : Bucket) {pc : FreePc}
    (hbusy : pc ≠ .done) :
    let result := flushStep bucket.page bucket.head bucket.tail false mem pc
    flushRank result.2 bucket.page result.1 <
      flushRank mem bucket.page pc := by
  dsimp only
  cases pc with
  | done => exact absurd rfl hbusy
  | load => simp [flushStep, flushRank]
  | loadHeap =>
      unfold flushStep
      dsimp only
      split
      · simp [flushRank]
      · simp [flushRank]
  | loadDelayed heap => simp [flushStep, flushRank]
  | loadReset => simp [flushStep, flushRank]
  | exchange tfree =>
      by_cases hcas : mem.xthreadFree bucket.page = tfree
      · by_cases huse : tfree.delayed = .useDelayedFree
        · simp [flushStep, flushRank, hcas, huse]
        · simp [flushStep, flushRank, FreeMemory.setNext, hcas, huse]
      · by_cases huse : tfree.delayed = .useDelayedFree
        · simp [flushStep, flushRank, hcas, huse]
        · simp [flushStep, flushRank, FreeMemory.setNext, hcas, huse]
  | pushDelayed heap dfree =>
      by_cases hcas : mem.threadDelayedFree heap = dfree
      · simp [flushStep, flushRank, FreeMemory.setNext, hcas]
      · simp [flushStep, flushRank, FreeMemory.setNext, hcas]
  | reset tfree =>
      by_cases hcas : mem.xthreadFree bucket.page = tfree
      · simp [flushStep, flushRank, hcas]
      · simp [flushStep, flushRank, hcas]

/-- A bound on the steps that the call has still to make. -/
def BatchState.weight (st : BatchState) : ℕ :=
  let flushWeight (b : ℕ) (pc : FreePc) : ℕ :=
    match st.buckets b with
    | some bucket => flushRank st.mem.toFreeMemory bucket.page pc
    | none => if pc = .done then 0 else 10
  match st.pc with
  | .scan rest => 14 * rest.length + 899
  | .insert _ held => 14 * held.rest.length + 900
  | .flush b pc (some held) =>
      flushWeight b pc + 14 * held.rest.length + 901
  | .flush b pc none => flushWeight b pc + 14 * (63 - b) + 2
  | .drain b => 14 * (64 - b) + 1
  | .done => 0

theorem batchStep_weight_flush (pages : BatchPages) (call : BatchCall)
    {st : BatchState} {b : ℕ} {pc : FreePc} {heldUp : Option HeldUp}
    (hpc : st.pc = .flush b pc heldUp) (hbusy : pc ≠ .done) :
    (batchStep pages call false st).weight < st.weight := by
  cases hbucket : st.buckets b with
  | none =>
      have hstep : batchStep pages call false st =
          st.goto (.flush b .done heldUp) := by
        unfold batchStep
        rw [hpc]
        cases pc with
        | done => exact absurd rfl hbusy
        | load => simp only [hbucket]
        | exchange tfree => simp only [hbucket]
        | loadHeap => simp only [hbucket]
        | loadDelayed heap => simp only [hbucket]
        | pushDelayed heap dfree => simp only [hbucket]
        | loadReset => simp only [hbucket]
        | reset tfree => simp only [hbucket]
      rw [hstep]
      cases heldUp with
      | none => simp [BatchState.weight, BatchState.goto, hpc, hbucket, hbusy]
      | some held =>
          simp [BatchState.weight, BatchState.goto, hpc, hbucket, hbusy]
  | some bucket =>
      have hlt := flushRank_lt st.mem.toFreeMemory bucket hbusy
      rw [batchStep_flush pages call false hpc hbusy hbucket]
      dsimp only at hlt ⊢
      generalize flushStep bucket.page bucket.head bucket.tail false
        st.mem.toFreeMemory pc = result at hlt ⊢
      generalize flushHanded bucket pc result.1 = handed
      have hpage : (if handed = [] then bucket
          else { bucket with blocks := [] }).page = bucket.page := by
        split
        · rfl
        · rfl
      cases heldUp with
      | none =>
          simp only [BatchState.weight, BatchState.goto, BatchState.hand,
            BatchState.setBucket, BatchState.setMem, Function.update_self,
            hpc, hbucket, hpage]
          omega
      | some held =>
          simp only [BatchState.weight, BatchState.goto, BatchState.hand,
            BatchState.setBucket, BatchState.setMem, Function.update_self,
            hpc, hbucket, hpage]
          omega

theorem batchStep_weight (pages : BatchPages) (call : BatchCall)
    {st : BatchState} (hbusy : st.pc ≠ .done) :
    (batchStep pages call false st).weight < st.weight := by
  cases hpc : st.pc with
  | done => exact absurd hpc hbusy
  | insert b held =>
      unfold batchStep
      rw [hpc]
      simp [BatchState.weight, BatchState.goto, hpc]
  | drain b =>
      unfold batchStep
      rw [hpc]
      dsimp only
      split
      · rename_i hlt
        unfold pageBucketCount pageBucketHalf at hlt
        split
        · simp only [BatchState.weight, BatchState.goto, hpc]
          omega
        · rename_i hsome
          rcases Option.ne_none_iff_exists'.mp hsome with ⟨bucket, hbucket⟩
          simp only [BatchState.weight, BatchState.goto, hpc, hbucket,
            flushRank]
          omega
      · simp [BatchState.weight, BatchState.goto, BatchState.hand, hpc]
  | flush b pc heldUp =>
      by_cases hdone : pc = .done
      · subst hdone
        unfold batchStep
        rw [hpc]
        cases heldUp with
        | none =>
            simp only [BatchState.weight, BatchState.goto,
              BatchState.setBucket, hpc]
            omega
        | some held =>
            simp only [BatchState.weight, BatchState.goto,
              BatchState.setBucket, hpc]
            omega
      · exact batchStep_weight_flush pages call hpc hdone
  | scan rest =>
      unfold batchStep
      rw [hpc]
      cases rest with
      | nil => simp [BatchState.weight, BatchState.goto, hpc]
      | cons p rest =>
          cases p with
          | none => simp [BatchState.weight, BatchState.goto, hpc]
          | some p =>
              have hfree : ((st.hand [.freed p]).goto (.scan rest)).weight <
                  st.weight := by
                simp [BatchState.weight, BatchState.goto, BatchState.hand,
                  hpc]
              dsimp only
              split
              · exact hfree
              split
              · exact hfree
              split
              · exact hfree
              split
              · rename_i hany
                cases hbucket : st.buckets (pages.bucketOf call.localNode _
                  (pages.pageOf p)) with
                | none =>
                    rw [hbucket] at hany
                    cases hany
                | some bucket =>
                    simp only [BatchState.weight, BatchState.goto, hpc,
                      hbucket, flushRank, List.length_cons]
                    omega
              · simp only [BatchState.weight, BatchState.goto, hpc,
                  List.length_cons]
                omega

theorem batch_returns (pages : BatchPages) (call : BatchCall)
    (st : BatchState) :
    ∃ n, ((batchStep pages call false)^[n] st).pc = .done := by
  induction hweight : st.weight using Nat.strong_induction_on
    generalizing st with
  | h weight ih =>
      by_cases hdone : st.pc = .done
      · exact ⟨0, hdone⟩
      · have hlt := batchStep_weight pages call hdone
        rw [hweight] at hlt
        rcases ih _ hlt _ rfl with ⟨n, hn⟩
        exact ⟨n + 1, hn⟩

/-! ## Runs -/

section Run

variable {pages : BatchPages} {heapsOf : ℕ → Set ℕ}
  {ptrs : List (Option Addr)} {call : BatchCall}

theorem batchStart_invariant {mem : BatchMemory}
    (hfits : Fits pages heapsOf (batchStart mem ptrs) mem) :
    BatchInvariant pages heapsOf ptrs (batchStart mem ptrs) := by
  constructor
  · intro x
    simp [BatchState.handedBlocks, BatchState.bucketCount, batchStart,
      bucketBlocks, BatchPc.blocks]
  · intro b bucket hbucket
    cases hbucket
  · intro b bucket hbucket
    cases hbucket
  · intro b bucket hbucket
    cases hbucket
  · intro b pc heldUp hpc
    cases hpc
  · intro b bucket hbucket
    cases hbucket
  · intro b pc held hpc
    cases hpc
  · intro b held hpc
    cases hpc
  · intro p hp
    exact hp
  · intro b hdrain b' _
    rfl
  · intro hdone b
    rfl
  · intro entry hentry
    cases hentry
  · exact hfits

theorem BatchInvariant.run {st run : BatchState}
    (h : BatchInvariant pages heapsOf ptrs st)
    (hnodup : (pages.arrayBlocks ptrs).Nodup)
    (hlive : ∀ p, some p ∈ ptrs → pages.Live p)
    (hrun : ReflTransGen (BatchStep pages call heapsOf) st run) :
    BatchInvariant pages heapsOf ptrs run := by
  induction hrun with
  | refl => exact h
  | tail _ hstep ih =>
      cases hstep with
      | call fail => exact (batchStep_kept ih hnodup hlive fail).1
      | other hother => exact ih.other hother

theorem BatchInvariant.handed_perm {st : BatchState}
    (h : BatchInvariant pages heapsOf ptrs st) (hdone : st.pc = .done) :
    (st.handedBlocks pages).Perm (pages.arrayBlocks ptrs) := by
  apply List.perm_iff_count.mpr
  intro x
  have hcounted := h.counted x
  have hempty : st.bucketCount x = 0 := by
    unfold BatchState.bucketCount
    apply Finset.sum_eq_zero
    intro b _
    rw [h.done hdone b]
    rfl
  rw [hdone, hempty] at hcounted
  exact hcounted

/-- `pa_vector_batch_free` frees every block of the array exactly once,
whatever the other threads do meanwhile.  When it has returned, what it has
handed over are the blocks of the array, and all buckets are empty.  At all
times no block is handed over twice, chains and what was handed over belong to
their pages, and a step puts its blocks in front of the lists as they are.
The call returns when it is not disturbed any more. -/
theorem batch_free_once (pages : BatchPages) (call : BatchCall)
    (heapsOf : ℕ → Set ℕ) (ptrs : List (Option Addr)) (mem : BatchMemory)
    (run : BatchState) (hnodup : (pages.arrayBlocks ptrs).Nodup)
    (hlive : ∀ p, some p ∈ ptrs → pages.Live p)
    (hfits : Fits pages heapsOf (batchStart mem ptrs) mem)
    (hrun : ReflTransGen (BatchStep pages call heapsOf)
      (batchStart mem ptrs) run) :
    (run.pc = .done →
      (run.handedBlocks pages).Perm (pages.arrayBlocks ptrs) ∧
        ∀ b, run.buckets b = none) ∧
    (run.handedBlocks pages).Nodup ∧
    (∀ entry ∈ run.handed, entry.Own pages heapsOf ptrs) ∧
    (∀ b bucket, run.buckets b = some bucket → ∀ x ∈ bucket.blocks,
      OwnPage pages ptrs bucket.page x) ∧
    (∀ fail, ∃ handed,
      (batchStep pages call fail run).handed = run.handed ++ handed ∧
      ListsGrow handed run.mem.toFreeMemory
        (batchStep pages call fail run).mem.toFreeMemory) ∧
    ∃ n, ((batchStep pages call false)^[n] run).pc = .done := by
  have h := (batchStart_invariant hfits).run hnodup hlive hrun
  refine ⟨?_, ?_, h.own, h.ownPage, ?_, batch_returns pages call run⟩
  · intro hdone
    exact ⟨h.handed_perm hdone, h.done hdone⟩
  · apply List.nodup_iff_count_le_one.mpr
    intro x
    have hcount := h.count_le_one hnodup x
    omega
  · intro fail
    exact (batchStep_kept h hnodup hlive fail).2

end Run

/-- Pages of 64 KiB with blocks of 64 bytes in normal segments of node 0. -/
def evenPages : BatchPages where
  pageOf := fun p => p / 65536
  pageStart := fun page => page * 65536
  blockSize := fun _ => 64
  blockSizeShift := fun _ => 6
  kind := fun _ => .normal
  nodeId := fun _ => 0

def evenMemory : BatchMemory where
  xthreadFree := fun page =>
    ⟨none, if page = 513 then .useDelayedFree else .noDelayedFree⟩
  xheap := fun _ => some 1
  threadDelayedFree := fun _ => none
  next := fun _ => none
  free := fun _ => none
  localFree := fun _ => none
  used := fun _ => 1
  threadId := fun _ => 7
  hasAligned := fun _ => true

/-- Two blocks of page 513, one given by an inner pointer, and between them
one of page 514, which has the same bucket. -/
def evenPtrs : List (Option Addr) :=
  [some (513 * 65536), none, some (514 * 65536), some (513 * 65536 + 72)]

theorem batch_free_once_even : ∃ run,
    ReflTransGen (BatchStep evenPages ⟨8, 1, 0⟩ fun _ => {1})
      (batchStart evenMemory evenPtrs) run ∧
    (run.handedBlocks evenPages).Perm
      [513 * 65536, 514 * 65536, 513 * 65536 + 64] := by
  have hlive : ∀ p, some p ∈ evenPtrs → evenPages.Live p := by
    intro p _
    refine ⟨?_, Nat.succ_pos 63, fun _ => rfl⟩
    exact Nat.div_mul_le_self p 65536
  have hfits : Fits evenPages (fun _ => {1})
      (batchStart evenMemory evenPtrs) evenMemory := by
    have hnil : Listed evenMemory.next none
        ((batchStart evenMemory evenPtrs).Held evenPages) :=
      ⟨[], rfl, by simp⟩
    refine ⟨fun _ => hnil, fun _ => hnil, ?_, ?_, ?_, fun _ _ _ => rfl⟩
    · intro page _ hnone
      cases hnone
    · intro b heldUp bucket hpc
      cases hpc
    · intro page heap hheap
      cases hheap
      rfl
  have hall := fun run => batch_free_once evenPages ⟨8, 1, 0⟩ (fun _ => {1})
    evenPtrs evenMemory run (by decide) hlive hfits
  rcases (hall _ .refl).2.2.2.2.2 with ⟨n, hn⟩
  have hrun : ∀ m, ReflTransGen
      (BatchStep evenPages ⟨8, 1, 0⟩ fun _ => {1})
      (batchStart evenMemory evenPtrs)
      ((batchStep evenPages ⟨8, 1, 0⟩ false)^[m]
        (batchStart evenMemory evenPtrs)) := by
    intro m
    induction m with
    | zero => exact .refl
    | succ m ih =>
        rw [Function.iterate_succ_apply']
        exact ih.tail (.call _ false)
  exact ⟨_, hrun n, ((hall _ (hrun n)).1 hn).1⟩

end Palloc
