import Palloc.Arena
import Palloc.DoubleFreeCheck
import Palloc.SegmentModel

/-!
# The segment map

One bit for each segment address below 48 TiB tells whether a segment is
there.  The bits are in parts that are allocated on demand.  A part, a word of
it and a bit are found from the address by division, and the bit is set or
cleared by a compare and swap loop.
-/

namespace Palloc

open BitFields

/-! ## Constants -/

/-- `PA_SEGMENT_MAP_MAX_ADDRESS`: 48 TiB. -/
def segmentMapMaxAddress : ℕ := 48 * 1024 * (1024 * 1024 * 1024)

/-- `PA_SEGMENT_MAP_PART_SIZE`. -/
def segmentMapPartSize : ℕ := intptrSize * 1024 - 128

/-- `PA_SEGMENT_MAP_PART_BITS`. -/
def segmentMapPartBits : ℕ := 8 * segmentMapPartSize

/-- `PA_SEGMENT_MAP_PART_ENTRIES`. -/
def segmentMapPartEntries : ℕ := segmentMapPartSize / intptrSize

/-- `PA_SEGMENT_MAP_PART_BIT_SPAN`. -/
def segmentMapPartBitSpan : ℕ := segmentSize

/-- `PA_SEGMENT_MAP_PART_SPAN`. -/
def segmentMapPartSpan : ℕ :=
  if segmentMapPartBits < segmentMapMaxAddress / segmentMapPartBitSpan then
    segmentMapPartBits * segmentMapPartBitSpan
  else segmentMapMaxAddress

/-- `PA_SEGMENT_MAP_MAX_PARTS`. -/
def segmentMapMaxParts : ℕ :=
  segmentMapMaxAddress / segmentMapPartSpan + 1

/-! ## Positions -/

structure MapPosition where
  segindex : ℕ
  idx : ℕ
  bitidx : ℕ
  deriving DecidableEq

/-- The position that `pa_segment_map_index_of` computes, or `none` when the
address is outside of the range of the map. -/
def segmentMapPosition (segment : ℕ) : Option MapPosition :=
  if segmentMapMaxAddress ≤ segment then none
  else
    let segindex := segment / segmentMapPartSpan
    if segmentMapMaxParts ≤ segindex then none
    else
      let offset := segment % segmentMapPartSpan
      let bitofs := offset / segmentMapPartBitSpan
      some ⟨segindex, bitofs / 64, bitofs % 64⟩

/-- `pa_segment_map`. -/
abbrev MapParts := ℕ → Option Fields

/-! ## Lookup -/

/-- `_pa_segment_of`; a null pointer is zero. -/
def segmentOf (parts : MapParts) (p : UintPtr) : UintPtr :=
  if p = 0 then 0
  else
    let segment := ptrSegment p
    match segmentMapPosition segment.toNat with
    | none => 0
    | some pos =>
      match parts pos.segindex with
      | none => 0
      | some map => if (map pos.idx).getLsbD pos.bitidx then segment else 0

/-- `_pa_arena_contains`, over the slots up to `pa_arena_count`. -/
def arenaContains (arenas : List (Option Arena)) (p : UintPtr) : Bool :=
  arenas.any fun
    | none => false
    | some arena =>
      arena.start ≤ p.toNat &&
        p.toNat < arena.start + arena.blockCount * arenaBlockSize

/-- `pa_is_in_heap_region`. -/
def isInHeapRegion (arenas : List (Option Arena)) (parts : MapParts)
    (p : UintPtr) : Bool :=
  arenaContains arenas p || segmentOf parts p != 0

/-! ## Registration -/

structure MapSegment where
  address : ℕ
  memkind : MemKind
  pos : 0 < address
  aligned : segmentSize ∣ address
  below : address < segmentMapMaxAddress

/-- `_pa_segment_map_allocated_at` and `_pa_segment_map_freed_at`. -/
inductive MapCall where
  | allocatedAt
  | freedAt
  deriving DecidableEq

def MapCall.newmask (call : MapCall) (mask : BitVec 64) (bitidx : ℕ) :
    BitVec 64 :=
  match call with
  | .allocatedAt => mask ||| 1#64 <<< bitidx
  | .freedAt => mask &&& ~~~(1#64 <<< bitidx)

/-- Where a thread is: before the load of the part, before the compare and
swap that installs a new part, before the load of the mask, and in the loop
with a mask. -/
inductive MapPhase where
  | idle
  | loadPart (call : MapCall) (segment : ℕ)
  | installPart (call : MapCall) (segment : ℕ)
  | loadMask (call : MapCall) (segment : ℕ)
  | update (call : MapCall) (segment : ℕ) (mask : BitVec 64)

structure MapState where
  parts : MapParts
  phase : ℕ → MapPhase

/-- A thread starts a call or takes its next atomic step.  The weak compare
and swap may fail although the mask is the current one. -/
inductive MapAction where
  | call (thread : ℕ) (call : MapCall) (segment : MapSegment)
  | next (thread : ℕ) (spurious : Bool)

namespace MapState

def setPhase (st : MapState) (thread : ℕ) (phase : MapPhase) : MapState :=
  { st with phase := Function.update st.phase thread phase }

def setPart (st : MapState) (segindex : ℕ) (map : Fields) : MapState :=
  { st with parts := Function.update st.parts segindex (some map) }

def stepAt (st : MapState) (thread : ℕ) (spurious : Bool)
    (pos : MapPosition) : MapPhase → MapState
  | .idle => st
  | .loadPart call segment =>
    match st.parts pos.segindex, call with
    | some _, call => st.setPhase thread (.loadMask call segment)
    | none, .allocatedAt =>
      st.setPhase thread (.installPart .allocatedAt segment)
    | none, .freedAt => st.setPhase thread .idle
  | .installPart call segment =>
    match st.parts pos.segindex with
    | none =>
      (st.setPart pos.segindex fun _ => 0).setPhase thread
        (.loadMask call segment)
    | some _ => st.setPhase thread (.loadMask call segment)
  | .loadMask call segment =>
    match st.parts pos.segindex with
    | none => st
    | some map => st.setPhase thread (.update call segment (map pos.idx))
  | .update call segment mask =>
    match st.parts pos.segindex with
    | none => st
    | some map =>
      if map pos.idx = mask ∧ spurious = false then
        (st.setPart pos.segindex
          (Function.update map pos.idx
            (call.newmask mask pos.bitidx))).setPhase thread .idle
      else st.setPhase thread (.update call segment (map pos.idx))

end MapState

def MapPhase.request : MapPhase → Option (MapCall × ℕ)
  | .idle => none
  | .loadPart call segment => some (call, segment)
  | .installPart call segment => some (call, segment)
  | .loadMask call segment => some (call, segment)
  | .update call segment _ => some (call, segment)

namespace MapState

/-- One action; a segment in an arena is skipped, and so is an address that
has no position. -/
def step (st : MapState) : MapAction → MapState
  | .call thread call segment =>
    match st.phase thread with
    | .idle =>
      if segment.memkind = .arena then st
      else st.setPhase thread (.loadPart call segment.address)
    | _ => st
  | .next thread spurious =>
    match (st.phase thread).request with
    | none => st
    | some (_, segment) =>
      match segmentMapPosition segment with
      | none => st.setPhase thread .idle
      | some pos => st.stepAt thread spurious pos (st.phase thread)

def run (st : MapState) (actions : List MapAction) : MapState :=
  actions.foldl step st

/-- The map at the start: `= { NULL, .. }`. -/
def start : MapState := ⟨fun _ => none, fun _ => .idle⟩

/-! ## The calls that returned -/

/-- The call that returns in an action: its thread was in it before and is in
no call after. -/
def returned (st : MapState) : MapAction → Option (MapCall × ℕ)
  | .call .. => none
  | .next thread spurious =>
    if ((st.step (.next thread spurious)).phase thread).request = none then
      (st.phase thread).request
    else none

def history (st : MapState) : List MapAction → List (MapCall × ℕ)
  | [] => []
  | action :: actions =>
    (st.returned action).toList ++ (st.step action).history actions

end MapState

def register (segments : Finset ℕ) : MapCall × ℕ → Finset ℕ
  | (.allocatedAt, segment) => insert segment segments
  | (.freedAt, segment) => segments.erase segment

/-- The segments that were registered and not freed since. -/
def registered (calls : List (MapCall × ℕ)) : Finset ℕ :=
  calls.foldl register ∅

/-! ## Positions are in range and different -/

theorem segmentMapPartSpan_eq :
    segmentMapPartSpan = 64512 * segmentSize := by decide

theorem segmentMapMaxParts_eq : segmentMapMaxParts = 25 := by decide

theorem segmentMapPosition_of_lt {segment : ℕ}
    (hlt : segment < segmentMapMaxAddress) :
    ∃ pos, segmentMapPosition segment = some pos ∧
      pos.segindex < segmentMapMaxParts ∧ pos.idx < segmentMapPartEntries ∧
      pos.bitidx < 64 := by
  have hmax : segmentMapMaxAddress = 52776558133248 := by decide
  have hsize : segmentSize = 33554432 := rfl
  have hentries : segmentMapPartEntries = 1008 := by decide
  have hspan := segmentMapPartSpan_eq
  have hparts := segmentMapMaxParts_eq
  have hsegindex : segment / segmentMapPartSpan < segmentMapMaxParts := by
    rw [hspan, hparts, hsize]
    omega
  refine ⟨⟨segment / segmentMapPartSpan,
    segment % segmentMapPartSpan / segmentMapPartBitSpan / 64,
    segment % segmentMapPartSpan / segmentMapPartBitSpan % 64⟩, ?_, hsegindex,
    ?_, ?_⟩
  · rw [segmentMapPosition, if_neg (not_le.mpr hlt)]
    simp only [if_neg (not_le.mpr hsegindex)]
  · simp only [segmentMapPartBitSpan]
    rw [hspan, hentries, hsize]
    omega
  · exact Nat.mod_lt _ (by decide)

theorem segmentMapPosition_injective {a b : ℕ} {pos : MapPosition}
    (ha : segmentSize ∣ a) (hb : segmentSize ∣ b)
    (hposa : segmentMapPosition a = some pos)
    (hposb : segmentMapPosition b = some pos) : a = b := by
  have hof : ∀ c, segmentMapPosition c = some pos →
      pos.segindex = c / segmentMapPartSpan ∧
        pos.idx * 64 + pos.bitidx =
          c % segmentMapPartSpan / segmentMapPartBitSpan := by
    intro c hpos
    unfold segmentMapPosition at hpos
    split at hpos
    · contradiction
    · simp only at hpos
      split at hpos
      · contradiction
      · rw [← Option.some.inj hpos]
        refine ⟨rfl, ?_⟩
        exact Nat.div_add_mod' _ 64
  obtain ⟨hsega, hbita⟩ := hof a hposa
  obtain ⟨hsegb, hbitb⟩ := hof b hposb
  have hseg := hsega.symm.trans hsegb
  have hbit := hbita.symm.trans hbitb
  have hsize : segmentSize = 33554432 := rfl
  rw [segmentMapPartSpan_eq, segmentMapPartBitSpan] at hbit
  rw [segmentMapPartSpan_eq] at hseg
  rw [hsize] at ha hb hseg hbit
  omega

/-! ## The bit of a segment -/

/-- The bit at a position; it is clear while the part is not there. -/
def mapBit (parts : MapParts) (pos : MapPosition) : Bool :=
  match parts pos.segindex with
  | none => false
  | some map => (map pos.idx).getLsbD pos.bitidx

theorem getLsbD_newmask (call : MapCall) (mask : BitVec 64) {b j : ℕ}
    (hb : b < 64) (hj : j < 64) :
    (call.newmask mask b).getLsbD j =
      if j = b then decide (call = .allocatedAt) else mask.getLsbD j := by
  have hone : (1#64 <<< b).getLsbD j = decide (j = b) := by
    rw [BitVec.getLsbD_shiftLeft, BitVec.getLsbD_one]
    grind
  cases call with
  | allocatedAt =>
    rw [MapCall.newmask, BitVec.getLsbD_or, hone]
    split <;> simp_all
  | freedAt =>
    rw [MapCall.newmask, BitVec.getLsbD_and, BitVec.getLsbD_not, hone]
    split <;> simp_all

/-- The write of the loop changes the bit of its position and no other. -/
theorem mapBit_update (parts : MapParts) {map : Fields} {pos other : MapPosition}
    (call : MapCall) (hmap : parts pos.segindex = some map)
    (hpos : pos.bitidx < 64) (hother : other.bitidx < 64) :
    mapBit
        (Function.update parts pos.segindex
          (some (Function.update map pos.idx
            (call.newmask (map pos.idx) pos.bitidx)))) other =
      if other = pos then decide (call = .allocatedAt)
      else mapBit parts other := by
  unfold mapBit
  by_cases hseg : other.segindex = pos.segindex
  · rw [hseg, Function.update_self, hmap]
    by_cases hidx : other.idx = pos.idx
    · simp only [hidx, Function.update_self]
      rw [getLsbD_newmask call _ hpos hother]
      by_cases hbit : other.bitidx = pos.bitidx
      · have heq : other = pos := by
          cases other
          cases pos
          simp_all
        rw [if_pos hbit, if_pos heq]
      · have hne : other ≠ pos := fun heq => hbit (by rw [heq])
        rw [if_neg hbit, if_neg hne]
    · have hne : other ≠ pos := fun heq => hidx (by rw [heq])
      simp only [Function.update_of_ne hidx, if_neg hne]
  · have hne : other ≠ pos := fun heq => hseg (by rw [heq])
    rw [Function.update_of_ne hseg, if_neg hne]

theorem mapBit_install (parts : MapParts) {segindex : ℕ}
    (hnone : parts segindex = none) (pos : MapPosition) :
    mapBit (Function.update parts segindex (some fun _ => 0)) pos =
      mapBit parts pos := by
  unfold mapBit
  by_cases hseg : pos.segindex = segindex
  · rw [hseg, Function.update_self, hnone]
    simp
  · rw [Function.update_of_ne hseg]

/-! ## The invariant -/

def MapAddress (segment : ℕ) : Prop :=
  0 < segment ∧ segmentSize ∣ segment ∧ segment < segmentMapMaxAddress

/-- The bits are those of the segments, and a thread that works on a part has
found it. -/
structure MapInvariant (st : MapState) (segments : Finset ℕ) : Prop where
  phases : ∀ thread call segment,
    (st.phase thread).request = some (call, segment) → MapAddress segment
  addresses : ∀ segment ∈ segments, MapAddress segment
  bits : ∀ segment pos, segmentSize ∣ segment →
    segmentMapPosition segment = some pos →
    (mapBit st.parts pos = true ↔ segment ∈ segments)
  found : ∀ thread call segment pos, segmentMapPosition segment = some pos →
    (st.phase thread = .loadMask call segment ∨
      ∃ mask, st.phase thread = .update call segment mask) →
    st.parts pos.segindex ≠ none

theorem MapInvariant.start : MapInvariant MapState.start ∅ where
  phases := by
    intro thread call segment hrequest
    contradiction
  addresses := by
    intro segment hmem
    simp at hmem
  bits := by
    intro segment pos _ _
    simp [MapState.start, mapBit]
  found := by
    intro thread call segment pos _ hphase
    simp [MapState.start] at hphase

theorem mem_register (segments : Finset ℕ) (call : MapCall)
    (segment other : ℕ) :
    other ∈ register segments (call, segment) ↔
      if other = segment then call = .allocatedAt else other ∈ segments := by
  cases call <;> by_cases heq : other = segment <;> simp [register, heq]

theorem segmentMapPosition_bitidx {segment : ℕ} {pos : MapPosition}
    (hpos : segmentMapPosition segment = some pos) : pos.bitidx < 64 := by
  unfold segmentMapPosition at hpos
  split at hpos
  · contradiction
  · simp only at hpos
    split at hpos
    · contradiction
    · rw [← Option.some.inj hpos]
      exact Nat.mod_lt _ (by decide)

namespace MapInvariant

variable {st : MapState} {segments : Finset ℕ}

/-- A thread goes on with its call. -/
theorem setPhase (hinv : MapInvariant st segments) (thread : ℕ)
    {phase : MapPhase} (hphase : ∀ call segment,
      phase.request = some (call, segment) → MapAddress segment)
    (hfound : ∀ call segment pos, segmentMapPosition segment = some pos →
      (phase = .loadMask call segment ∨
        ∃ mask, phase = .update call segment mask) →
      st.parts pos.segindex ≠ none) :
    MapInvariant (st.setPhase thread phase) segments where
  phases := by
    intro other call segment hrequest
    by_cases heq : other = thread
    · subst heq
      simp only [MapState.setPhase, Function.update_self] at hrequest
      exact hphase call segment hrequest
    · simp only [MapState.setPhase, Function.update_of_ne heq] at hrequest
      exact hinv.phases other call segment hrequest
  addresses := hinv.addresses
  bits := hinv.bits
  found := by
    intro other call segment pos hpos hother
    by_cases heq : other = thread
    · subst heq
      simp only [MapState.setPhase, Function.update_self] at hother
      exact hfound call segment pos hpos hother
    · simp only [MapState.setPhase, Function.update_of_ne heq] at hother
      exact hinv.found other call segment pos hpos hother

theorem idle (hinv : MapInvariant st segments) (thread : ℕ) :
    MapInvariant (st.setPhase thread .idle) segments := by
  apply hinv.setPhase
  · intro call segment hrequest
    contradiction
  · rintro call segment pos - (hphase | ⟨mask, hphase⟩) <;> contradiction

theorem setPart (hinv : MapInvariant st segments) {segindex : ℕ}
    (hnone : st.parts segindex = none) :
    MapInvariant (st.setPart segindex fun _ => 0) segments where
  phases := hinv.phases
  addresses := hinv.addresses
  bits := by
    intro segment pos hdvd hpos
    have hbit := mapBit_install st.parts hnone pos
    simp only [MapState.setPart]
    rw [hbit]
    exact hinv.bits segment pos hdvd hpos
  found := by
    intro thread call segment pos hpos hphase
    have hold := hinv.found thread call segment pos hpos hphase
    simp only [MapState.setPart]
    by_cases hseg : pos.segindex = segindex
    · simp [hseg]
    · rwa [Function.update_of_ne hseg]

/-- A call takes effect: its bit becomes what the call says. -/
theorem finish (hinv : MapInvariant st segments) {parts : MapParts}
    {segment : ℕ} {call : MapCall} {pos : MapPosition}
    (haddr : MapAddress segment)
    (hpos : segmentMapPosition segment = some pos)
    (hparts : ∀ segindex, st.parts segindex ≠ none → parts segindex ≠ none)
    (hbit : ∀ other otherPos, segmentMapPosition other = some otherPos →
      mapBit parts otherPos =
        if otherPos = pos then decide (call = .allocatedAt)
        else mapBit st.parts otherPos) :
    MapInvariant { st with parts := parts }
      (register segments (call, segment)) where
  phases := hinv.phases
  addresses := by
    intro other hmem
    rw [mem_register] at hmem
    by_cases heq : other = segment
    · rwa [heq]
    · rw [if_neg heq] at hmem
      exact hinv.addresses other hmem
  bits := by
    intro other otherPos hdvd hotherPos
    rw [mem_register, hbit other otherPos hotherPos]
    by_cases heq : otherPos = pos
    · subst heq
      have hsame := segmentMapPosition_injective hdvd haddr.2.1 hotherPos hpos
      rw [if_pos rfl, if_pos hsame, decide_eq_true_eq]
    · have hne : other ≠ segment := by
        intro hsame
        rw [hsame, hpos] at hotherPos
        exact heq (Option.some.inj hotherPos).symm
      rw [if_neg heq, if_neg hne]
      exact hinv.bits other otherPos hdvd hotherPos
  found := by
    intro thread call segment pos hpos hphase
    exact hparts _ (hinv.found thread call segment pos hpos hphase)

/-- A step of a thread goes on with its call, or returns from it with the bit
as the call says. -/
theorem stepAt (hinv : MapInvariant st segments) (thread : ℕ)
    (spurious : Bool) {call : MapCall} {segment : ℕ} {pos : MapPosition}
    (hrequest : (st.phase thread).request = some (call, segment))
    (hpos : segmentMapPosition segment = some pos) :
    let st' := st.stepAt thread spurious pos (st.phase thread)
    ((st'.phase thread).request = some (call, segment) ∧
      MapInvariant st' segments) ∨
    ((st'.phase thread).request = none ∧
      MapInvariant st' (register segments (call, segment))) := by
  have haddr := hinv.phases thread call segment hrequest
  have hgoes : ∀ (st : MapState) (phase : MapPhase),
      MapInvariant st segments → phase.request = some (call, segment) →
      st.parts pos.segindex ≠ none ∨ (∃ c s, phase = .installPart c s) →
      ((st.setPhase thread phase).phase thread).request =
          some (call, segment) ∧
        MapInvariant (st.setPhase thread phase) segments := by
    intro st phase hinv hphase hfound
    refine ⟨?_, hinv.setPhase thread ?_ ?_⟩
    · simp only [MapState.setPhase, Function.update_self]
      exact hphase
    · intro call' segment' hrequest'
      rw [hphase] at hrequest'
      cases hrequest'
      exact haddr
    · intro call' segment' pos' hpos' hwork
      rcases hfound with hpart | ⟨c, s, rfl⟩
      · have hsame : segment = segment' := by
          rcases hwork with rfl | ⟨mask, rfl⟩ <;> cases hphase <;> rfl
        subst hsame
        rw [hpos] at hpos'
        cases hpos'
        exact hpart
      · rcases hwork with hphase' | ⟨mask, hphase'⟩ <;> contradiction
  cases hphase : st.phase thread with
  | idle =>
    rw [hphase] at hrequest
    contradiction
  | loadPart c s =>
    rw [hphase] at hrequest
    cases hrequest
    cases hpart : st.parts pos.segindex with
    | some map =>
      simp only [MapState.stepAt, hpart]
      exact Or.inl (hgoes st _ hinv rfl (Or.inl (by simp [hpart])))
    | none =>
      cases call with
      | allocatedAt =>
        simp only [MapState.stepAt, hpart]
        exact Or.inl (hgoes st _ hinv rfl (Or.inr ⟨_, _, rfl⟩))
      | freedAt =>
        simp only [MapState.stepAt, hpart]
        refine Or.inr ⟨by simp [MapState.setPhase, MapPhase.request], ?_⟩
        apply MapInvariant.idle
        apply hinv.finish haddr hpos (fun _ h => h)
        -- There is no part, so the bit is clear already.
        intro other otherPos _
        by_cases heq : otherPos = pos
        · rw [if_pos heq, heq, mapBit, hpart]
          rfl
        · rw [if_neg heq]
  | installPart c s =>
    rw [hphase] at hrequest
    cases hrequest
    cases hpart : st.parts pos.segindex with
    | some map =>
      simp only [MapState.stepAt, hpart]
      exact Or.inl (hgoes st _ hinv rfl (Or.inl (by simp [hpart])))
    | none =>
      simp only [MapState.stepAt, hpart]
      exact Or.inl (hgoes _ _ (hinv.setPart hpart) rfl
        (Or.inl (by simp [MapState.setPart])))
  | loadMask c s =>
    rw [hphase] at hrequest
    cases hrequest
    cases hpart : st.parts pos.segindex with
    | none =>
      have hfound := hinv.found thread call segment pos hpos (Or.inl hphase)
      exact absurd hpart hfound
    | some map =>
      simp only [MapState.stepAt, hpart]
      exact Or.inl (hgoes st _ hinv rfl (Or.inl (by simp [hpart])))
  | update c s mask =>
    rw [hphase] at hrequest
    cases hrequest
    cases hpart : st.parts pos.segindex with
    | none =>
      have hfound := hinv.found thread call segment pos hpos
        (Or.inr ⟨mask, hphase⟩)
      exact absurd hpart hfound
    | some map =>
      simp only [MapState.stepAt, hpart]
      split
      · next hcas =>
        refine Or.inr ⟨by simp [MapState.setPhase, MapPhase.request], ?_⟩
        rw [← hcas.1]
        apply MapInvariant.idle
        apply hinv.finish haddr hpos
        · intro segindex hold
          by_cases hseg : segindex = pos.segindex
          · simp [hseg]
          · rwa [Function.update_of_ne hseg]
        · intro other otherPos hother
          exact mapBit_update st.parts call hpart
            (segmentMapPosition_bitidx hpos)
            (segmentMapPosition_bitidx hother)
      · exact Or.inl (hgoes st _ hinv rfl (Or.inl (by simp [hpart])))

/-- In a call every step of the thread is one at the position of its
segment. -/
theorem step_next (hinv : MapInvariant st segments) {thread : ℕ}
    {call : MapCall} {segment : ℕ}
    (hrequest : (st.phase thread).request = some (call, segment))
    (spurious : Bool) :
    ∃ pos, segmentMapPosition segment = some pos ∧
      st.step (.next thread spurious) =
        st.stepAt thread spurious pos (st.phase thread) := by
  obtain ⟨pos, hpos, -⟩ :=
    segmentMapPosition_of_lt (hinv.phases thread call segment hrequest).2.2
  refine ⟨pos, hpos, ?_⟩
  simp only [MapState.step, hrequest, hpos]

theorem step (hinv : MapInvariant st segments) (action : MapAction) :
    MapInvariant (st.step action)
      ((st.returned action).toList.foldl register segments) := by
  cases action with
  | call thread call segment =>
    simp only [MapState.returned, Option.toList_none, List.foldl_nil,
      MapState.step]
    split
    · split
      · exact hinv
      · apply hinv.setPhase
        · intro call' other hrequest
          cases hrequest
          exact ⟨segment.pos, segment.aligned, segment.below⟩
        · rintro call' other pos - (hphase | ⟨mask, hphase⟩) <;>
            contradiction
    · exact hinv
  | next thread spurious =>
    cases hrequest : (st.phase thread).request with
    | none =>
      have hstep : st.step (.next thread spurious) = st := by
        simp only [MapState.step, hrequest]
      simp only [MapState.returned, hstep, hrequest, if_true,
        Option.toList_none, List.foldl_nil]
      exact hinv
    | some request =>
      obtain ⟨call, segment⟩ := request
      obtain ⟨pos, hpos, hstep⟩ := hinv.step_next hrequest spurious
      simp only [MapState.returned, hstep, hrequest]
      rcases hinv.stepAt thread spurious hrequest hpos with
        ⟨hgoes, hinv'⟩ | ⟨hreturns, hinv'⟩
      · rw [hgoes, if_neg (by simp)]
        exact hinv'
      · rw [hreturns, if_pos rfl]
        exact hinv'

theorem run (hinv : MapInvariant st segments) (actions : List MapAction) :
    MapInvariant (st.run actions)
      ((st.history actions).foldl register segments) := by
  induction actions generalizing st segments with
  | nil => exact hinv
  | cons action actions ih =>
    rw [MapState.history, List.foldl_append]
    exact ih (hinv.step action)

/-! ## Every call returns -/

section Returns

variable {thread k : ℕ} {call : MapCall} {segment : ℕ} {pos : MapPosition}

/-- A call goes on and returns later. -/
theorem later
    (hgoes : ((st.step (.next thread false)).phase thread).request =
      some (call, segment))
    (hlater : ∃ n ≤ k, (st.step (.next thread false)).history
      (List.replicate n (.next thread false)) = [(call, segment)]) :
    ∃ n ≤ k + 1, st.history (List.replicate n (.next thread false)) =
      [(call, segment)] := by
  obtain ⟨n, hn, hhistory⟩ := hlater
  refine ⟨n + 1, Nat.succ_le_succ hn, ?_⟩
  have hnone : st.returned (.next thread false) = none := by
    simp only [MapState.returned, hgoes, reduceCtorEq, if_false]
  rw [List.replicate_succ, MapState.history, hnone, Option.toList_none,
    List.nil_append, hhistory]

theorem returns_current (hpos : segmentMapPosition segment = some pos)
    {map : Fields} (hpart : st.parts pos.segindex = some map)
    (hphase : st.phase thread = .update call segment (map pos.idx)) :
    st.history (List.replicate 1 (.next thread false)) =
      [(call, segment)] := by
  have hrequest : (st.phase thread).request = some (call, segment) := by
    rw [hphase]
    rfl
  have hreturned : st.returned (.next thread false) = some (call, segment) := by
    simp only [MapState.returned, MapState.step, hrequest, hpos]
    rw [hphase]
    simp [MapState.stepAt, hpart, MapState.setPhase, MapPhase.request]
  simp only [List.replicate_one, MapState.history, hreturned]
  rfl

theorem returns_update (hinv : MapInvariant st segments)
    {mask : BitVec 64} (hphase : st.phase thread = .update call segment mask) :
    ∃ n ≤ 2, st.history (List.replicate n (.next thread false)) =
      [(call, segment)] := by
  have hrequest : (st.phase thread).request = some (call, segment) := by
    rw [hphase]
    rfl
  obtain ⟨pos, hpos, hstep⟩ := hinv.step_next hrequest false
  have hfound := hinv.found thread call segment pos hpos
    (Or.inr ⟨mask, hphase⟩)
  obtain ⟨map, hpart⟩ := Option.ne_none_iff_exists'.mp hfound
  by_cases hcurrent : map pos.idx = mask
  · subst hcurrent
    exact ⟨1, by decide, returns_current hpos hpart hphase⟩
  · have hretry : st.step (.next thread false) =
        st.setPhase thread (.update call segment (map pos.idx)) := by
      rw [hstep, hphase]
      simp only [MapState.stepAt, hpart]
      rw [if_neg fun h => hcurrent h.1]
    have hphase' : (st.step (.next thread false)).phase thread =
        .update call segment (map pos.idx) := by
      rw [hretry]
      exact Function.update_self _ _ _
    apply later
    · rw [hphase']
      rfl
    · refine ⟨1, le_rfl, returns_current hpos ?_ hphase'⟩
      rw [hretry]
      exact hpart

theorem returns_loadMask (hinv : MapInvariant st segments)
    (hphase : st.phase thread = .loadMask call segment) :
    ∃ n ≤ 2, st.history (List.replicate n (.next thread false)) =
      [(call, segment)] := by
  have hrequest : (st.phase thread).request = some (call, segment) := by
    rw [hphase]
    rfl
  obtain ⟨pos, hpos, hstep⟩ := hinv.step_next hrequest false
  have hfound := hinv.found thread call segment pos hpos (Or.inl hphase)
  obtain ⟨map, hpart⟩ := Option.ne_none_iff_exists'.mp hfound
  have hload : st.step (.next thread false) =
      st.setPhase thread (.update call segment (map pos.idx)) := by
    rw [hstep, hphase]
    simp only [MapState.stepAt, hpart]
  have hphase' : (st.step (.next thread false)).phase thread =
      .update call segment (map pos.idx) := by
    rw [hload]
    exact Function.update_self _ _ _
  apply later
  · rw [hphase']
    rfl
  · refine ⟨1, le_rfl, returns_current hpos ?_ hphase'⟩
    rw [hload]
    exact hpart

theorem returns_installPart (hinv : MapInvariant st segments)
    (hphase : st.phase thread = .installPart call segment) :
    ∃ n ≤ 3, st.history (List.replicate n (.next thread false)) =
      [(call, segment)] := by
  have hrequest : (st.phase thread).request = some (call, segment) := by
    rw [hphase]
    rfl
  obtain ⟨pos, hpos, hstep⟩ := hinv.step_next hrequest false
  have hphase' : (st.step (.next thread false)).phase thread =
      .loadMask call segment := by
    rw [hstep, hphase]
    simp only [MapState.stepAt]
    split <;> exact Function.update_self _ _ _
  apply later
  · rw [hphase']
    rfl
  · exact (hinv.step (.next thread false)).returns_loadMask hphase'

/-- A call returns after at most four steps of its thread, when the other
threads rest and no compare and swap fails without a reason. -/
theorem returns (hinv : MapInvariant st segments)
    (hrequest : (st.phase thread).request = some (call, segment)) :
    ∃ n ≤ 4, st.history (List.replicate n (.next thread false)) =
      [(call, segment)] := by
  cases hphase : st.phase thread with
  | idle =>
    rw [hphase] at hrequest
    contradiction
  | loadPart c s =>
    rw [hphase] at hrequest
    cases hrequest
    have hrequest : (st.phase thread).request = some (call, segment) := by
      rw [hphase]
      rfl
    have hinv' := hinv.step (.next thread false)
    obtain ⟨pos, hpos, hstep⟩ := hinv.step_next hrequest false
    rw [hphase] at hstep
    cases hpart : st.parts pos.segindex with
    | some map =>
      have hphase' : (st.step (.next thread false)).phase thread =
          .loadMask call segment := by
        rw [hstep]
        simp only [MapState.stepAt, hpart]
        exact Function.update_self _ _ _
      obtain ⟨n, hn, hhistory⟩ :=
        later (by rw [hphase']; rfl) (hinv'.returns_loadMask hphase')
      exact ⟨n, by omega, hhistory⟩
    | none =>
      cases call with
      | allocatedAt =>
        have hphase' : (st.step (.next thread false)).phase thread =
            .installPart .allocatedAt segment := by
          rw [hstep]
          simp only [MapState.stepAt, hpart]
          exact Function.update_self _ _ _
        exact later (by rw [hphase']; rfl)
          (hinv'.returns_installPart hphase')
      | freedAt =>
        refine ⟨1, by decide, ?_⟩
        have hreturned : st.returned (.next thread false) =
            some (.freedAt, segment) := by
          simp only [MapState.returned, hstep, hrequest]
          simp [MapState.stepAt, hpart, MapState.setPhase, MapPhase.request]
        simp only [List.replicate_one, MapState.history, hreturned]
        rfl
  | installPart c s =>
    rw [hphase] at hrequest
    cases hrequest
    obtain ⟨n, hn, hhistory⟩ := hinv.returns_installPart hphase
    exact ⟨n, by omega, hhistory⟩
  | loadMask c s =>
    rw [hphase] at hrequest
    cases hrequest
    obtain ⟨n, hn, hhistory⟩ := hinv.returns_loadMask hphase
    exact ⟨n, by omega, hhistory⟩
  | update c s mask =>
    rw [hphase] at hrequest
    cases hrequest
    obtain ⟨n, hn, hhistory⟩ := hinv.returns_update hphase
    exact ⟨n, by omega, hhistory⟩

end Returns

end MapInvariant

/-! ## Lookup finds what is registered -/

/-- `_pa_segment_of` finds the segment of a pointer when it is registered. -/
theorem MapInvariant.segmentOf_ne_zero_iff {st : MapState}
    {segments : Finset ℕ} (hinv : MapInvariant st segments) (p : UintPtr) :
    segmentOf st.parts p ≠ 0 ↔
      (ptrSegment p).toNat ∈ segments := by
  have hdvd := segmentSize_dvd_ptrSegment p
  unfold segmentOf
  by_cases hnull : p = 0
  · subst hnull
    have hzero : (ptrSegment 0).toNat = 0 := by decide
    rw [if_pos rfl, hzero]
    constructor
    · intro hne
      exact absurd rfl hne
    · intro hmem
      exact absurd (hinv.addresses 0 hmem).1 (lt_irrefl 0)
  · rw [if_neg hnull]
    simp only
    cases hpos : segmentMapPosition (ptrSegment p).toNat with
    | none =>
      constructor
      · intro hne
        exact absurd rfl hne
      · intro hmem
        obtain ⟨pos, hsome, _⟩ :=
          segmentMapPosition_of_lt (hinv.addresses _ hmem).2.2
        rw [hpos] at hsome
        contradiction
    | some pos =>
      have hbits := hinv.bits _ pos hdvd hpos
      cases hpart : st.parts pos.segindex with
      | none =>
        simp only [mapBit, hpart] at hbits ⊢
        simpa using hbits
      | some map =>
        simp only [mapBit, hpart] at hbits ⊢
        rw [← hbits]
        split
        · next hbit =>
          have hne : ptrSegment p ≠ 0 := by
            intro hzero
            have hpositive := (hinv.addresses _ (hbits.mp hbit)).1
            rw [hzero] at hpositive
            exact lt_irrefl 0 hpositive
          exact iff_of_true hne hbit
        · next hbit => exact iff_of_false (by simp) hbit

/-- Different segments have different positions in range.  In every run a
pointer outside of the arenas is in a heap region when its segment is
registered and not freed since, by the calls that have returned.  A thread
that is in no call can start one, which returns if only its thread goes on. -/
theorem segment_map_exact :
    (∀ segment, segment < segmentMapMaxAddress →
        ∃ pos, segmentMapPosition segment = some pos ∧
          pos.segindex < segmentMapMaxParts ∧
          pos.idx < segmentMapPartEntries ∧ pos.bitidx < 64) ∧
      (∀ a b, segmentSize ∣ a → segmentSize ∣ b →
        a < segmentMapMaxAddress → b < segmentMapMaxAddress → a ≠ b →
        segmentMapPosition a ≠ segmentMapPosition b) ∧
      ∀ actions : List MapAction,
        (∀ (arenas : List (Option Arena)) (p : UintPtr),
          arenaContains arenas p = false →
          (isInHeapRegion arenas (MapState.start.run actions).parts p = true ↔
            (ptrSegment p).toNat ∈
              registered (MapState.start.history actions))) ∧
        (∀ thread call (segment : MapSegment), segment.memkind ≠ .arena →
          ((MapState.start.run actions).phase thread).request = none →
          ∃ n ≤ 4, (MapState.start.run actions).history
            (.call thread call segment ::
              List.replicate n (.next thread false)) =
            [(call, segment.address)]) ∧
        ∀ thread call segment,
          ((MapState.start.run actions).phase thread).request =
            some (call, segment) →
          ∃ n ≤ 4, (MapState.start.run actions).history
            (List.replicate n (.next thread false)) = [(call, segment)] := by
  refine ⟨fun _ hlt => segmentMapPosition_of_lt hlt, ?_, ?_⟩
  · intro a b ha hb hlta _ hne heq
    obtain ⟨pos, hpos, _⟩ := segmentMapPosition_of_lt hlta
    exact hne (segmentMapPosition_injective ha hb hpos (heq ▸ hpos))
  intro actions
  have hinv := MapInvariant.start.run actions
  refine ⟨?_, ?_, fun thread call segment => hinv.returns⟩
  · intro arenas p hp
    rw [isInHeapRegion, hp, Bool.false_or, bne_iff_ne]
    exact hinv.segmentOf_ne_zero_iff p
  · intro thread call segment hkind hidle
    have hinv' := hinv.step (.call thread call segment)
    have hphase : ((MapState.start.run actions).step
        (.call thread call segment)).phase thread =
        .loadPart call segment.address := by
      cases hphase : (MapState.start.run actions).phase thread with
      | idle =>
        simp only [MapState.step, hphase, if_neg hkind]
        exact Function.update_self _ _ _
      | _ => simp [hphase, MapPhase.request] at hidle
    exact hinv'.returns (by rw [hphase]; rfl)

def mapSegment : MapSegment :=
  ⟨2 * segmentSize, .os, by decide, Nat.dvd_mul_left _ _, by decide⟩

/-- One thread registers the segment while another one starts to free it. -/
def mapRun : List MapAction :=
  [.call 0 .allocatedAt mapSegment, .next 0 false, .next 0 false,
    .next 0 false, .call 1 .freedAt mapSegment, .next 1 false, .next 1 false,
    .next 0 true, .next 0 false]

/-- The segment is in the map, and is not once the other call returns. -/
theorem segment_map_exact_registered :
    isInHeapRegion [] (MapState.start.run mapRun).parts 67108872#64 = true ∧
      ∃ n ≤ 4, (MapState.start.run mapRun).history
        (List.replicate n (.next 1 false)) =
          [(.freedAt, 2 * segmentSize)] := by
  obtain ⟨hregion, -, hreturns⟩ := segment_map_exact.2.2 mapRun
  refine ⟨(hregion [] 67108872#64 rfl).mpr (by decide +kernel), ?_⟩
  exact hreturns 1 .freedAt (2 * segmentSize) (by decide +kernel)

end Palloc
