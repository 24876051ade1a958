import Palloc.ArenaPurge

/-!
# Scheduled purges

Each arena has an expiry of its own and there is one for all arenas.  A pass
visits the arenas in order and stops after it purged something in enough of
them.  It runs only up to the moment when the expiry for all arenas passes,
and a pass that visits all arenas forgets the arenas that are not due yet.
-/

namespace Palloc

open BitFields

variable {st st' start : Arenas} {arena arena' : Arena} {env : ArenaEnv}
variable {index maxPurgeCount : ℕ} {arenas : List Arena} {now clock : ℤ}

/-! ## One pass over the arenas -/

/-- Some block is scheduled for a purge and not in use. -/
def Arena.HasWork (arena : Arena) : Prop :=
  ∃ b < 64 * arena.fieldCount,
    arena.scheduled b = true ∧ bit arena.blocksInuse b = false

instance (arena : Arena) : Decidable arena.HasWork :=
  inferInstanceAs (Decidable (∃ b < 64 * arena.fieldCount,
    arena.scheduled b = true ∧ bit arena.blocksInuse b = false))

/-- A visit at time `now` purges something. -/
def Arena.purgeable (now : ℤ) (arena : Arena) : Bool :=
  decide (arena.Expired now ∧ arena.HasWork)

structure FirstExpired (arenas : List Arena) (now : ℤ) (index : ℕ)
    (arena : Arena) : Prop where
  at_index : arenas[index]? = some arena
  expired : arena.Expired now
  first : ∀ i < index, ∀ arena, arenas[i]? = some arena →
    ¬ arena.Expired now

/-- What a visit does to an expired arena. -/
theorem Arena.tryPurge_purges (hpinned : arena.isPinned = false)
    (hexpired : arena.Expired env.now) :
    ∃ ranges, (arena.tryPurge env false).2.purged = arena.purged ++ ranges ∧
      ∀ b < 64 * arena.fieldCount, arena.scheduled b = true →
        bit arena.blocksInuse b = false →
        Covered ranges b ∧
          (arena.tryPurge env false).2.scheduled b = false := by
  rcases tryPurge_expired hpinned hexpired with ⟨ranges, heq, hpurges⟩
  rw [heq]
  refine ⟨ranges, purgeAll_purged env _ ranges, ?_⟩
  intro b hlt hscheduled hfree
  have hcovered := hpurges.all b (Nat.zero_le b) hlt hscheduled hfree
  refine ⟨hcovered, ?_⟩
  rw [← Bool.not_eq_true]
  intro hstill
  exact ((purgeAll_scheduled env _ ranges b).mp hstill).2 hcovered

theorem Arena.tryPurge_any (hpinned : arena.isPinned = false) :
    (arena.tryPurge env false).1 = arena.purgeable env.now := by
  unfold purgeable
  by_cases hexpired : arena.Expired env.now
  · rcases tryPurge_expired hpinned hexpired with ⟨ranges, heq, hpurges⟩
    have hiff := hpurges.isEmpty_iff
    rw [heq]
    dsimp only
    by_cases hwork : arena.HasWork
    · rw [decide_eq_true ⟨hexpired, hwork⟩, Bool.not_eq_true',
        ← Bool.not_eq_true, hiff, not_not]
      rcases hwork with ⟨b, hlt, hb⟩
      exact ⟨b, Nat.zero_le b, hlt, hb⟩
    · rw [decide_eq_false (fun h => hwork h.2), Bool.not_eq_false', hiff]
      intro hb
      rcases hb with ⟨b, -, hlt, hb⟩
      exact hwork ⟨b, hlt, hb⟩
  · rw [tryPurge_unexpired hexpired, decide_eq_false (fun h => hexpired h.1)]

theorem Arena.tryPurge_purgeExpire (hpinned : arena.isPinned = false) :
    (arena.tryPurge env false).2.purgeExpire =
      if arena.Expired env.now then 0 else arena.purgeExpire := by
  by_cases hexpired : arena.Expired env.now
  · rcases tryPurge_expired hpinned hexpired with ⟨ranges, heq, -⟩
    rw [heq, if_pos hexpired]
    exact (purgeAll_frame env _ ranges).2.1
  · rw [tryPurge_unexpired hexpired, if_neg hexpired]

theorem Arena.tryPurge_isPinned (hpinned : arena.isPinned = false) :
    (arena.tryPurge env false).2.isPinned = false := by
  by_cases hexpired : arena.Expired env.now
  · rcases tryPurge_expired hpinned hexpired with ⟨ranges, heq, -⟩
    rw [heq]
    exact (purgeAll_frame env _ ranges).2.2.2.trans hpinned
  · rw [tryPurge_unexpired hexpired]
    exact hpinned

/-- An arena is either visited or left as it is. -/
theorem purgeLoop_getElem? (env : ArenaEnv) (force : Bool)
    (arenas : List Arena) (maxPurgeCount index : ℕ) :
    (Arenas.purgeLoop env force arenas maxPurgeCount).2[index]? =
        arenas[index]? ∨
      (Arenas.purgeLoop env force arenas maxPurgeCount).2[index]? =
        arenas[index]?.map fun arena => (arena.tryPurge env force).2 := by
  induction arenas generalizing maxPurgeCount index with
  | nil => exact Or.inl rfl
  | cons arena rest ih =>
      unfold Arenas.purgeLoop
      rcases hvisit : arena.tryPurge env force with ⟨any, visited⟩
      cases any with
      | true =>
          dsimp only
          split
          · cases index with
            | zero => exact Or.inr (by simp [hvisit])
            | succ index => exact Or.inl rfl
          · cases index with
            | zero => exact Or.inr (by simp [hvisit])
            | succ index => exact ih (maxPurgeCount - 1) index
      | false =>
          dsimp only
          cases index with
          | zero => exact Or.inr (by simp [hvisit])
          | succ index => exact ih maxPurgeCount index

theorem purgeLoop_first (env : ArenaEnv) (maxPurgeCount : ℕ)
    (hfirst : FirstExpired arenas env.now index arena) :
    (Arenas.purgeLoop env false arenas maxPurgeCount).2[index]? =
      some (arena.tryPurge env false).2 := by
  induction arenas generalizing index with
  | nil =>
      have hindex := hfirst.at_index
      rw [List.getElem?_nil] at hindex
      cases hindex
  | cons head rest ih =>
      unfold Arenas.purgeLoop
      cases index with
      | zero =>
          have hhead : head = arena := Option.some.inj hfirst.at_index
          subst hhead
          rcases head.tryPurge env false with ⟨any, visited⟩
          cases any with
          | true =>
              dsimp only
              split
              · rfl
              · rfl
          | false => rfl
      | succ index =>
          have hhead := hfirst.first 0 (by omega) head rfl
          rw [Arena.tryPurge_unexpired hhead]
          apply ih
          constructor
          · exact hfirst.at_index
          · exact hfirst.expired
          · intro i hi
            exact hfirst.first (i + 1) (by omega)

theorem purgeLoop_allVisited (env : ArenaEnv)
    (hpinned : ∀ arena ∈ arenas, arena.isPinned = false)
    (hcount : 0 < maxPurgeCount) :
    (Arenas.purgeLoop env false arenas maxPurgeCount).1 = true ↔
      arenas.countP (Arena.purgeable env.now) < maxPurgeCount := by
  induction arenas generalizing maxPurgeCount with
  | nil => simp [Arenas.purgeLoop, hcount]
  | cons arena rest ih =>
      have hany := @Arena.tryPurge_any arena env
        (hpinned arena List.mem_cons_self)
      have hrest : ∀ arena ∈ rest, arena.isPinned = false :=
        fun arena hmem => hpinned arena (List.mem_cons_of_mem _ hmem)
      unfold Arenas.purgeLoop
      rw [List.countP_cons, ← hany]
      rcases arena.tryPurge env false with ⟨any, visited⟩
      cases any with
      | true =>
          dsimp only
          split
          · simp
            omega
          · rw [ih hrest (by omega)]
            simp
            omega
      | false =>
          dsimp only
          rw [ih hrest hcount]
          simp

theorem purgeLoop_visited (env : ArenaEnv) (arenas : List Arena)
    (maxPurgeCount : ℕ) :
    (Arenas.purgeLoop env false arenas maxPurgeCount).1 = true →
    (Arenas.purgeLoop env false arenas maxPurgeCount).2 =
      arenas.map fun arena => (arena.tryPurge env false).2 := by
  induction arenas generalizing maxPurgeCount with
  | nil => exact fun _ => rfl
  | cons arena rest ih =>
      unfold Arenas.purgeLoop
      rw [List.map_cons]
      rcases arena.tryPurge env false with ⟨any, visited⟩
      cases any with
      | true =>
          dsimp only
          split
          · intro hall
            cases hall
          · intro hall
            rw [ih (maxPurgeCount - 1) hall]
      | false =>
          dsimp only
          intro hall
          rw [ih maxPurgeCount hall]

/-! ## Calls -/

inductive PurgeCall
  | schedulePurge (env : ArenaEnv) (index bitmapIdx blocks : ℕ)
  | tryPurge (env : ArenaEnv) (visitAll : Bool)

def PurgeCall.reads : PurgeCall → ArenaEnv
  | schedulePurge env _ _ _ => env
  | tryPurge env _ => env

def Arenas.call (st : Arenas) : PurgeCall → Arenas
  | .schedulePurge env index bitmapIdx blocks =>
      match st.arenas[index]? with
      | none => st
      | some arena => st.schedulePurge env index arena bitmapIdx blocks
  | .tryPurge env visitAll => st.tryPurge env false visitAll

/-- A positive delay, and a clock that has reached `clock`. -/
def PurgeCall.Allowed (clock : ℤ) (call : PurgeCall) : Prop :=
  0 < call.reads.purgeDelay ∧ call.reads.preloading = false ∧
    clock ≤ call.reads.now

instance (clock : ℤ) (call : PurgeCall) : Decidable (call.Allowed clock) :=
  inferInstanceAs (Decidable (_ ∧ _ ∧ _))

def Arenas.Remembered (st : Arenas) : Prop :=
  ∀ arena ∈ st.arenas, arena.purgeExpire ≠ 0 → st.purgeExpire ≠ 0

/-- A pass at which the expiry for all arenas has passed purges the first
expired arena. -/
def Arenas.PurgesFirst (st st' : Arenas) : PurgeCall → Prop
  | .tryPurge env false =>
      st.purgeExpire ≠ 0 → st.purgeExpire ≤ env.now →
      ∀ index arena, FirstExpired st.arenas env.now index arena →
        ∃ arena' ranges, st'.arenas[index]? = some arena' ∧
          arena'.purged = arena.purged ++ ranges ∧
          ∀ b < 64 * arena.fieldCount, arena.scheduled b = true →
            bit arena.blocksInuse b = false →
            Covered ranges b ∧ arena'.scheduled b = false
  | _ => True

structure PurgesOnTime (st : Arenas) (call : PurgeCall) : Prop where
  first : st.PurgesFirst (st.call call) call
  expired : ∀ (index : ℕ) (arena arena' : Arena),
    st.arenas[index]? = some arena →
    (st.call call).arenas[index]? = some arena' →
    arena'.purged ≠ arena.purged → arena.Expired call.reads.now
  remembered : (st.call call).Remembered

/-- A call that the reversed gate and the early reset do not hurt. -/
def PurgeCall.Harmless (st : Arenas) : PurgeCall → Prop
  | .schedulePurge .. => True
  | .tryPurge env visitAll =>
      (visitAll = false → st.purgeExpire ≠ 0 → st.purgeExpire < env.now →
        ∀ index arena, FirstExpired st.arenas env.now index arena →
          ¬ arena.HasWork) ∧
      (st.purgeExpire ≠ 0 → env.now ≤ st.purgeExpire →
        (∀ arena ∈ st.arenas, arena.purgeExpire ≤ env.now) ∨
        (if visitAll then st.arenas.length else 2) ≤
          st.arenas.countP (Arena.purgeable env.now))

structure PurgeInvariant (st : Arenas) (clock : ℤ) : Prop where
  clock_nonneg : 0 ≤ clock
  pinned : ∀ arena ∈ st.arenas, arena.isPinned = false
  remembered : st.Remembered

/-! ## Scheduling -/

theorem call_schedulePurge (env : ArenaEnv) (bitmapIdx blocks : ℕ)
    (harena : st.arenas[index]? = some arena) :
    st.call (.schedulePurge env index bitmapIdx blocks) =
      st.schedulePurge env index arena bitmapIdx blocks := by
  unfold Arenas.call
  dsimp only
  rw [harena]

theorem call_schedulePurge_none (env : ArenaEnv) (bitmapIdx blocks : ℕ)
    (harena : st.arenas[index]? = none) :
    st.call (.schedulePurge env index bitmapIdx blocks) = st := by
  unfold Arenas.call
  dsimp only
  rw [harena]

theorem schedulePurge_eq (bitmapIdx blocks : ℕ)
    (hdelay : 0 < env.purgeDelay) (hpreloading : env.preloading = false) :
    st.schedulePurge env index arena bitmapIdx blocks =
      { st.setArena index
          { arena with
            purgeExpire :=
              if arena.purgeExpire ≠ 0 then arena.purgeExpire
              else env.now + env.purgeDelay
            blocksPurge := arena.blocksPurge.map fun map =>
              (bitmapClaimAcross map blocks bitmapIdx).bitmap } with
        purgeExpire :=
          if ¬ arena.purgeExpire ≠ 0 ∧ st.purgeExpire = 0 then
            env.now + env.purgeDelay
          else st.purgeExpire } := by
  have hnow : ¬ (env.preloading = true ∨ env.purgeDelay = 0) := by
    rw [hpreloading]
    intro hor
    rcases hor with h | h
    · cases h
    · omega
  unfold Arenas.schedulePurge
  rw [if_neg (by omega), if_neg hnow]

theorem schedulePurge_remembered (bitmapIdx blocks : ℕ)
    (hinv : PurgeInvariant st clock) (hdelay : 0 < env.purgeDelay)
    (hpreloading : env.preloading = false) (hclock : clock ≤ env.now)
    (harena : st.arenas[index]? = some arena) :
    (st.schedulePurge env index arena bitmapIdx blocks).Remembered := by
  have hnonneg := hinv.clock_nonneg
  rw [schedulePurge_eq bitmapIdx blocks hdelay hpreloading]
  intro arena' hmem harmed
  dsimp only
  by_cases hset : ¬ arena.purgeExpire ≠ 0 ∧ st.purgeExpire = 0
  · rw [if_pos hset]
    omega
  · rw [if_neg hset]
    rcases List.mem_or_eq_of_mem_set hmem with hold | hnew
    · exact hinv.remembered arena' hold harmed
    · intro hglobal
      apply hset
      refine ⟨?_, hglobal⟩
      intro hne
      exact hinv.remembered arena (List.mem_of_getElem? harena) hne hglobal

theorem schedulePurge_onTime (bitmapIdx blocks : ℕ)
    (hinv : PurgeInvariant st clock)
    (hallowed : (PurgeCall.schedulePurge env index bitmapIdx blocks).Allowed
      clock) :
    PurgesOnTime st (.schedulePurge env index bitmapIdx blocks) := by
  rcases hallowed with ⟨hdelay, hpreloading, hclock⟩
  dsimp only [PurgeCall.reads] at hdelay hpreloading hclock
  constructor
  · trivial
  · intro i arena arena' hget hget' hpurged
    exfalso
    cases harena : st.arenas[index]? with
    | none =>
        rw [call_schedulePurge_none env bitmapIdx blocks harena, hget] at hget'
        exact hpurged (congrArg Arena.purged (Option.some.inj hget').symm)
    | some scheduled =>
        rw [call_schedulePurge env bitmapIdx blocks harena,
          schedulePurge_eq bitmapIdx blocks hdelay hpreloading] at hget'
        dsimp only [Arenas.setArena] at hget'
        rw [List.getElem?_set] at hget'
        by_cases hi : index = i
        · subst hi
          rw [harena] at hget
          have hlt := (List.getElem?_eq_some_iff.mp harena).1
          rw [if_pos rfl, if_pos hlt] at hget'
          rw [← Option.some.inj hget', ← Option.some.inj hget] at hpurged
          exact hpurged rfl
        · rw [if_neg hi, hget] at hget'
          exact hpurged (congrArg Arena.purged (Option.some.inj hget').symm)
  · cases harena : st.arenas[index]? with
    | none =>
        rw [call_schedulePurge_none env bitmapIdx blocks harena]
        exact hinv.remembered
    | some arena =>
        rw [call_schedulePurge env bitmapIdx blocks harena]
        exact schedulePurge_remembered bitmapIdx blocks hinv hdelay
          hpreloading hclock harena

/-! ## Passes -/

theorem tryPurge_gated (visitAll : Bool)
    (hgate : st.purgeExpire = 0 ∨ st.purgeExpire < env.now) :
    st.tryPurge env false visitAll = st := by
  unfold Arenas.tryPurge
  split
  · rfl
  · rw [if_pos ⟨by decide, hgate⟩]

theorem tryPurge_runs (visitAll : Bool) (hdelay : 0 < env.purgeDelay)
    (hpreloading : env.preloading = false) (harmed : st.purgeExpire ≠ 0)
    (hnow : env.now ≤ st.purgeExpire) (hsome : st.arenas ≠ []) :
    st.tryPurge env false visitAll =
      { arenas := (Arenas.purgeLoop env false st.arenas
          (if visitAll then st.arenas.length else 2)).2
        purgeExpire :=
          if (Arenas.purgeLoop env false st.arenas
            (if visitAll then st.arenas.length else 2)).1 then 0
          else env.now + env.purgeDelay } := by
  have hgo : ¬ (env.preloading = true ∨ env.purgeDelay ≤ 0) := by
    rw [hpreloading]
    intro hor
    rcases hor with h | h
    · cases h
    · omega
  have hopen : ¬ (¬ (false = true) ∧
      (st.purgeExpire = 0 ∨ st.purgeExpire < env.now)) := by
    intro hgate
    have hor := hgate.2
    omega
  unfold Arenas.tryPurge
  have hlength : ¬ st.arenas.length = 0 :=
    fun h => hsome (List.length_eq_zero_iff.mp h)
  rw [if_neg hgo, if_neg hopen, if_neg hlength]

/-- A pass leaves the arenas alone or visits them in order. -/
theorem tryPurge_cases (env : ArenaEnv) (st : Arenas)
    (force visitAll : Bool) :
    st.tryPurge env force visitAll = st ∨
      (st.tryPurge env force visitAll).arenas =
        (Arenas.purgeLoop env force st.arenas
          (if visitAll then st.arenas.length else 2)).2 := by
  unfold Arenas.tryPurge
  split
  · exact Or.inl rfl
  split
  · exact Or.inl rfl
  split
  · exact Or.inl rfl
  exact Or.inr rfl

theorem tryPurge_getElem? (env : ArenaEnv) (st : Arenas)
    (force visitAll : Bool) (index : ℕ) :
    (st.tryPurge env force visitAll).arenas[index]? = st.arenas[index]? ∨
      (st.tryPurge env force visitAll).arenas[index]? =
        st.arenas[index]?.map fun arena => (arena.tryPurge env force).2 := by
  rcases tryPurge_cases env st force visitAll with hsame | hloop
  · rw [hsame]
    exact Or.inl rfl
  · rw [hloop]
    exact purgeLoop_getElem? env force st.arenas _ index

theorem tryPurge_expired (env : ArenaEnv) (st : Arenas) (visitAll : Bool)
    (hget : st.arenas[index]? = some arena)
    (hget' : (st.tryPurge env false visitAll).arenas[index]? = some arena')
    (hpurged : arena'.purged ≠ arena.purged) : arena.Expired env.now := by
  by_contra hexpired
  apply hpurged
  rcases tryPurge_getElem? env st false visitAll index with hsame | hvisit
  · rw [hsame, hget] at hget'
    rw [Option.some.inj hget']
  · rw [hvisit, hget, Option.map_some,
      Arena.tryPurge_unexpired hexpired] at hget'
    exact congrArg Arena.purged (Option.some.inj hget').symm

theorem tryPurge_first_iff (visitAll : Bool) (hdelay : 0 < env.purgeDelay)
    (hpreloading : env.preloading = false)
    (hpinned : ∀ arena ∈ st.arenas, arena.isPinned = false) :
    st.PurgesFirst (st.tryPurge env false visitAll)
        (.tryPurge env visitAll) ↔
      (visitAll = false → st.purgeExpire ≠ 0 → st.purgeExpire < env.now →
        ∀ index arena, FirstExpired st.arenas env.now index arena →
          ¬ arena.HasWork) := by
  cases visitAll with
  | true =>
      constructor
      · intro _ hall
        cases hall
      · exact fun _ => trivial
  | false =>
      constructor
      · intro hfirst _ harmed hgate index arena hexpired hwork
        rcases hfirst harmed (le_of_lt hgate) index arena hexpired with
          ⟨arena', ranges, hget, -, hdone⟩
        rw [tryPurge_gated false (Or.inr hgate), hexpired.at_index] at hget
        rcases hwork with ⟨b, hlt, hscheduled, hfree⟩
        have hcleared := (hdone b hlt hscheduled hfree).2
        rw [← Option.some.inj hget, hscheduled] at hcleared
        cases hcleared
      · intro hnone harmed hnow index arena hexpired
        by_cases hgate : st.purgeExpire < env.now
        · rw [tryPurge_gated false (Or.inr hgate)]
          refine ⟨arena, [], hexpired.at_index,
            (List.append_nil _).symm, ?_⟩
          intro b hlt hscheduled hfree
          exact absurd ⟨b, hlt, hscheduled, hfree⟩
            (hnone rfl harmed hgate index arena hexpired)
        · have hsome : st.arenas ≠ [] :=
            List.ne_nil_of_mem (List.mem_of_getElem? hexpired.at_index)
          have hunpinned :=
            hpinned arena (List.mem_of_getElem? hexpired.at_index)
          rw [tryPurge_runs false hdelay hpreloading harmed (not_lt.mp hgate)
            hsome]
          rcases Arena.tryPurge_purges hunpinned hexpired.expired with
            ⟨ranges, hpurged, hdone⟩
          exact ⟨_, ranges, purgeLoop_first env _ hexpired, hpurged, hdone⟩

theorem tryPurge_remembered_iff (visitAll : Bool)
    (hinv : PurgeInvariant st clock) (hdelay : 0 < env.purgeDelay)
    (hpreloading : env.preloading = false) (hclock : clock ≤ env.now) :
    (st.tryPurge env false visitAll).Remembered ↔
      (st.purgeExpire ≠ 0 → env.now ≤ st.purgeExpire →
        (∀ arena ∈ st.arenas, arena.purgeExpire ≤ env.now) ∨
        (if visitAll then st.arenas.length else 2) ≤
          st.arenas.countP (Arena.purgeable env.now)) := by
  have hnonneg := hinv.clock_nonneg
  by_cases hgate : st.purgeExpire = 0 ∨ st.purgeExpire < env.now
  · rw [tryPurge_gated visitAll hgate]
    constructor
    · intro _ harmed hnow
      omega
    · intro _
      exact hinv.remembered
  have harmed : st.purgeExpire ≠ 0 := by omega
  have hnow : env.now ≤ st.purgeExpire := by omega
  by_cases hsome : st.arenas = []
  · have hsame : st.tryPurge env false visitAll = st := by
      unfold Arenas.tryPurge
      rw [hsome]
      simp
    rw [hsame, hsome]
    constructor
    · intro _ _ _
      apply Or.inl
      intro arena hmem
      cases hmem
    · intro _
      exact hinv.remembered
  rw [tryPurge_runs visitAll hdelay hpreloading harmed hnow hsome]
  have hpos : 0 < (if visitAll = true then st.arenas.length else 2) := by
    have hlength := List.length_pos_iff.mpr hsome
    split <;> omega
  have hall := purgeLoop_allVisited env hinv.pinned hpos
  have hvisited := purgeLoop_visited env st.arenas
    (if visitAll = true then st.arenas.length else 2)
  generalize (if visitAll = true then st.arenas.length else 2) =
    maxPurgeCount at hall hvisited ⊢
  cases hloop : (Arenas.purgeLoop env false st.arenas maxPurgeCount).1 with
  | false =>
      have hmany : maxPurgeCount ≤
          st.arenas.countP (Arena.purgeable env.now) := by
        rw [hloop] at hall
        by_contra hfew
        cases hall.mpr (not_le.mp hfew)
      constructor
      · exact fun _ _ _ => Or.inr hmany
      · intro _ arena _ _
        dsimp only
        rw [if_neg (by decide)]
        omega
  | true =>
      -- all arenas were visited, so those not due yet keep their expiry
      have hfew := hall.mp hloop
      have hexpire : ∀ arena ∈ st.arenas,
          (arena.tryPurge env false).2.purgeExpire =
            if arena.Expired env.now then 0 else arena.purgeExpire :=
        fun arena hmem => Arena.tryPurge_purgeExpire (hinv.pinned arena hmem)
      constructor
      · intro hremembered _ _
        apply Or.inl
        intro arena hmem
        by_contra hlate
        have hunexpired : ¬ arena.Expired env.now := fun h => hlate h.2
        have hkept := hexpire arena hmem
        rw [if_neg hunexpired] at hkept
        have hglobal := hremembered (arena.tryPurge env false).2
          (by
            dsimp only
            rw [hvisited hloop]
            exact List.mem_map_of_mem hmem)
          (by omega)
        exact hglobal rfl
      · intro hdue arena' hmem hne
        exfalso
        dsimp only at hmem
        rw [hvisited hloop] at hmem
        rcases List.mem_map.mp hmem with ⟨arena, harena, rfl⟩
        rcases hdue harmed hnow with hdue | hmany
        · have hle := hdue arena harena
          rw [hexpire arena harena] at hne
          split at hne
          · exact hne rfl
          · rename_i hunexpired
            exact hunexpired ⟨hne, hle⟩
        · omega

/-! ## Runs -/

theorem call_onTime_iff {call : PurgeCall} (hinv : PurgeInvariant st clock)
    (hallowed : call.Allowed clock) :
    PurgesOnTime st call ↔ call.Harmless st := by
  cases call with
  | schedulePurge env index bitmapIdx blocks =>
      exact ⟨fun _ => trivial,
        fun _ => schedulePurge_onTime bitmapIdx blocks hinv hallowed⟩
  | tryPurge env visitAll =>
      rcases hallowed with ⟨hdelay, hpreloading, hclock⟩
      have hfirst := tryPurge_first_iff visitAll hdelay hpreloading hinv.pinned
      have hremembered :=
        tryPurge_remembered_iff visitAll hinv hdelay hpreloading hclock
      constructor
      · intro hontime
        exact ⟨hfirst.mp hontime.first, hremembered.mp hontime.remembered⟩
      · intro hharmless
        constructor
        · exact hfirst.mpr hharmless.1
        · intro index arena arena' hget hget' hpurged
          exact tryPurge_expired env st visitAll hget hget' hpurged
        · exact hremembered.mpr hharmless.2

theorem call_pinned (st : Arenas) (call : PurgeCall)
    (hpinned : ∀ arena ∈ st.arenas, arena.isPinned = false) :
    ∀ arena ∈ (st.call call).arenas, arena.isPinned = false := by
  cases call with
  | schedulePurge env index bitmapIdx blocks =>
      cases harena : st.arenas[index]? with
      | none =>
          rw [call_schedulePurge_none env bitmapIdx blocks harena]
          exact hpinned
      | some arena =>
          rw [call_schedulePurge env bitmapIdx blocks harena]
          have hunpinned := hpinned arena (List.mem_of_getElem? harena)
          intro arena' hmem
          dsimp only [Arenas.schedulePurge] at hmem
          split at hmem
          · exact hpinned arena' hmem
          split at hmem
          · rcases List.mem_or_eq_of_mem_set hmem with hold | rfl
            · exact hpinned arena' hold
            · exact hunpinned
          · rcases List.mem_or_eq_of_mem_set hmem with hold | rfl
            · exact hpinned arena' hold
            · exact hunpinned
  | tryPurge env visitAll =>
      intro arena' hmem
      rcases List.getElem?_of_mem hmem with ⟨index, hget⟩
      rcases tryPurge_getElem? env st false visitAll index with hsame | hvisit
      · exact hpinned arena' (List.mem_of_getElem? (hsame ▸ hget))
      · unfold Arenas.call at hget
        dsimp only at hget
        rw [hvisit] at hget
        rcases Option.map_eq_some_iff.mp hget with ⟨arena, harena, rfl⟩
        exact Arena.tryPurge_isPinned
          (hpinned arena (List.mem_of_getElem? harena))

structure Arenas.Fresh (st : Arenas) : Prop where
  pinned : ∀ arena ∈ st.arenas, arena.isPinned = false
  purgeExpire : ∀ arena ∈ st.arenas, arena.purgeExpire = 0

/-- The arenas and the clock after some calls that are allowed and `ok`.
Between the calls the owners of the blocks may claim and release them. -/
inductive PurgeRun (ok : Arenas → PurgeCall → Prop) (start : Arenas) :
    Arenas → ℤ → Prop
  | start {clock : ℤ} : 0 ≤ clock → PurgeRun ok start start clock
  | call {st : Arenas} {clock : ℤ} {call : PurgeCall} :
      PurgeRun ok start st clock → call.Allowed clock → ok st call →
      PurgeRun ok start (st.call call) call.reads.now
  | owner {st : Arenas} {clock : ℤ} {index : ℕ} {arena : Arena}
      (inuse purge : Fields) :
      PurgeRun ok start st clock → st.arenas[index]? = some arena →
      PurgeRun ok start
        (st.setArena index
          { arena with blocksInuse := inuse, blocksPurge := some purge }) clock

theorem PurgeInvariant.owner (inuse purge : Fields)
    (hinv : PurgeInvariant st clock) (harena : st.arenas[index]? = some arena) :
    PurgeInvariant
      (st.setArena index
        { arena with blocksInuse := inuse, blocksPurge := some purge }) clock := by
  have hmem := List.mem_of_getElem? harena
  constructor
  · exact hinv.clock_nonneg
  · intro arena' hmem'
    rcases List.mem_or_eq_of_mem_set hmem' with hold | rfl
    · exact hinv.pinned arena' hold
    · exact hinv.pinned arena hmem
  · intro arena' hmem' harmed
    rcases List.mem_or_eq_of_mem_set hmem' with hold | rfl
    · exact hinv.remembered arena' hold harmed
    · exact hinv.remembered arena hmem harmed

theorem PurgeRun.invariant (hstart : start.Fresh)
    (hrun : PurgeRun (fun st call => call.Harmless st) start st clock) :
    PurgeInvariant st clock := by
  induction hrun with
  | start hclock =>
      refine ⟨hclock, hstart.pinned, ?_⟩
      intro arena hmem harmed
      exact absurd (hstart.purgeExpire arena hmem) harmed
  | call _ hallowed hharmless ih =>
      have hnonneg := ih.clock_nonneg
      have hclock := hallowed.2.2
      have hontime := (call_onTime_iff ih hallowed).mpr hharmless
      exact ⟨by omega, call_pinned _ _ ih.pinned, hontime.remembered⟩
  | owner inuse purge _ harena ih => exact ih.owner inuse purge harena

/-- After harmless calls the next call gives memory back when it should
exactly if it is harmless. -/
theorem arena_purges_on_time {start st : Arenas} {clock : ℤ}
    {call : PurgeCall} (hstart : start.Fresh)
    (hrun : PurgeRun (fun st call => call.Harmless st) start st clock)
    (hallowed : call.Allowed clock) :
    PurgesOnTime st call ↔ call.Harmless st :=
  call_onTime_iff (hrun.invariant hstart) hallowed

def idleArena : Arena where
  id := 1
  start := 0
  blockCount := 64
  fieldCount := 1
  exclusive := false
  isPinned := false
  initiallyZero := false
  searchIdx := 0
  purgeExpire := 0
  blocksInuse := fun _ => 0
  blocksDirty := fun _ => 0
  blocksCommitted := some fun _ => BitVec.allOnes 64
  blocksPurge := some fun _ => 0
  purged := []

def idleArenas : Arenas := ⟨[idleArena], 0⟩

/-- A purge delay of ten at time `now`. -/
def delayTen (now : ℤ) : ArenaEnv where
  purgeDelay := 10
  preloading := false
  now := now
  later := fun _ => now
  osPurge := fun _ _ _ => true

theorem idleArenas_fresh : idleArenas.Fresh := by
  constructor
  · intro arena hmem
    rw [List.mem_singleton.mp hmem]
    rfl
  · intro arena hmem
    rw [List.mem_singleton.mp hmem]
    rfl

theorem idleArenas_run (ok : Arenas → PurgeCall → Prop)
    (hok : ok idleArenas (.schedulePurge (delayTen 90) 0 3 1)) :
    PurgeRun ok idleArenas
      (idleArenas.call (.schedulePurge (delayTen 90) 0 3 1)) 90 :=
  .call (.start (le_refl 0)) (by decide) hok

/-- At time 100 both expiries have just passed. -/
theorem arena_purges_on_time_at_expiry :
    PurgesOnTime (idleArenas.call (.schedulePurge (delayTen 90) 0 3 1))
        (.tryPurge (delayTen 100) false) ↔
      (PurgeCall.tryPurge (delayTen 100) false).Harmless
        (idleArenas.call (.schedulePurge (delayTen 90) 0 3 1)) :=
  arena_purges_on_time idleArenas_fresh
    (idleArenas_run _ trivial) (by decide)

/-- At time 101 the pass is turned away although block 3 is due, and a pass at
time 99 forgets it. -/
theorem arena_purge_missed :
    idleArenas.Fresh ∧
    PurgeRun (fun _ _ => True) idleArenas
      (idleArenas.call (.schedulePurge (delayTen 90) 0 3 1)) 90 ∧
    (PurgeCall.tryPurge (delayTen 101) false).Allowed 90 ∧
    ¬ PurgesOnTime (idleArenas.call (.schedulePurge (delayTen 90) 0 3 1))
      (.tryPurge (delayTen 101) false) ∧
    (PurgeCall.tryPurge (delayTen 99) false).Allowed 90 ∧
    ¬ PurgesOnTime (idleArenas.call (.schedulePurge (delayTen 90) 0 3 1))
      (.tryPurge (delayTen 99) false) := by
  have hinv := (idleArenas_run _ trivial).invariant idleArenas_fresh
  refine ⟨idleArenas_fresh, idleArenas_run _ trivial, by decide, ?_,
    by decide, ?_⟩
  · intro hontime
    have hharmless := (call_onTime_iff hinv (by decide)).mp hontime
    have hexpired : FirstExpired
        (idleArenas.call (.schedulePurge (delayTen 90) 0 3 1)).arenas 101 0
        { idleArena with
          purgeExpire := 100
          blocksPurge := some (bitmapClaimAcross (fun _ => 0) 1 3).bitmap } := by
      constructor
      · rfl
      · decide
      · intro i hi
        exact absurd hi (Nat.not_lt_zero i)
    exact hharmless.1 rfl (by decide) (by decide) 0 _ hexpired
      ⟨3, by decide, by decide +kernel, by decide +kernel⟩
  · intro hontime
    have hharmless := (call_onTime_iff hinv (by decide)).mp hontime
    rcases hharmless.2 (by decide) (by decide) with hdue | hmany
    · exact absurd (hdue _ List.mem_cons_self) (by decide)
    · revert hmany
      decide +kernel

end Palloc
