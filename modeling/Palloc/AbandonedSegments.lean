import Palloc.Bitmap
import Palloc.LinkedQueue

/-!
# Abandoned segments

A segment in an arena is marked in the arena's bitmap of abandoned blocks; any
other segment is put into a list of its sub-process.  A cursor goes through
the bitmaps of all arenas, from a random one on, and then through the list.

Nobody else is at work, so every lock is free.
-/

namespace Palloc

open BitFields LinkedQueue

/-- A segment is known by its `memid`: the arena and the block where it
starts, or its address when it does not lie in an arena. -/
inductive SegmentId where
  | arena (arenaIdx bitmapIdx : ℕ)
  | os (address : ℕ)
  deriving Repr, DecidableEq

/-- The registries of abandoned segments.  `fieldCount` is `none` where
`pa_arenas` is null; the fields of a sub-process are functions of it. -/
structure AbandonState where
  arenaCount : ℕ
  fieldCount : ℕ → Option ℕ
  blocksAbandoned : ℕ → Fields
  links : Links ℕ
  osList : ℕ → Ends ℕ
  abandonedCount : ℕ → ℕ
  osListCount : ℕ → ℕ
  subproc : SegmentId → ℕ
  threadId : SegmentId → ℕ

/-- `pa_arena_field_cursor_t`; `stop` is its field `end`. -/
structure AbandonedCursor where
  osListCount : ℕ
  start : ℕ
  stop : ℕ
  bitmapIdx : ℕ
  subproc : ℕ
  visitAll : Bool
  holdVisitLock : Bool
  deriving Repr, DecidableEq

/-- What a cursor reads from its heap: the index of the arena that the heap is
bound to, if any, and the next random number. -/
structure CursorHeap where
  arenaIdx : Option ℕ
  randomNext : ℕ

namespace AbandonState

/-! ## Marking and clearing one segment -/

/-- `pa_arena_segment_os_clear_abandoned`. -/
def osClearAbandoned (segment : ℕ) (takeLock : Bool) (self : ℕ)
    (st : AbandonState) : Bool × AbandonState :=
  let subproc := st.subproc (.os segment)
  let ends := st.osList subproc
  let next := st.links.next segment
  let prev := st.links.prev segment
  if next.isSome ∨ prev.isSome ∨ ends.first = some segment then
    (true, { st with
      links := deleteLinks st.links segment
      osList := Function.update st.osList subproc
        ⟨if prev.isSome then ends.first else next,
          if next.isSome then ends.last else prev⟩
      abandonedCount := Function.update st.abandonedCount subproc
        (st.abandonedCount subproc - 1)
      osListCount := Function.update st.osListCount subproc
        (st.osListCount subproc - 1)
      threadId :=
        if takeLock then Function.update st.threadId (.os segment) self
        else st.threadId })
  else (false, st)

/-- `_pa_arena_segment_clear_abandoned`. -/
def clearAbandoned (segment : SegmentId) (self : ℕ) (st : AbandonState) :
    Bool × AbandonState :=
  match segment with
  | .os address => st.osClearAbandoned address true self
  | .arena arenaIdx bitmapIdx =>
      let result := bitmapUnclaim (st.blocksAbandoned arenaIdx) 1 bitmapIdx
      let st :=
        { st with
          blocksAbandoned :=
            Function.update st.blocksAbandoned arenaIdx result.2 }
      if result.1 then
        let subproc := st.subproc segment
        (true, { st with
          abandonedCount := Function.update st.abandonedCount subproc
            (st.abandonedCount subproc - 1)
          threadId := Function.update st.threadId segment self })
      else (false, st)

/-- `pa_arena_segment_os_mark_abandoned`. -/
def osMarkAbandoned (segment : ℕ) (st : AbandonState) : AbandonState :=
  let subproc := st.subproc (.os segment)
  let ends := st.osList subproc
  { st with
    links := pushBackLinks st.links ends segment
    osList := Function.update st.osList subproc (pushBackEnds ends segment)
    osListCount := Function.update st.osListCount subproc
      (st.osListCount subproc + 1)
    abandonedCount := Function.update st.abandonedCount subproc
      (st.abandonedCount subproc + 1) }

/-- `_pa_arena_segment_mark_abandoned`. -/
def markAbandoned (segment : SegmentId) (st : AbandonState) : AbandonState :=
  let st := { st with threadId := Function.update st.threadId segment 0 }
  match segment with
  | .os address => st.osMarkAbandoned address
  | .arena arenaIdx bitmapIdx =>
      let subproc := st.subproc segment
      let result := bitmapClaim (st.blocksAbandoned arenaIdx) 1 bitmapIdx
      let st :=
        { st with
          blocksAbandoned :=
            Function.update st.blocksAbandoned arenaIdx result.2 }
      if result.1 then
        { st with
          abandonedCount := Function.update st.abandonedCount subproc
            (st.abandonedCount subproc + 1) }
      else st

/-! ## The cursor -/

/-- `_pa_arena_field_cursor_init`. -/
def cursorInit (heap : Option CursorHeap) (subproc : ℕ) (visitAll : Bool)
    (st : AbandonState) : AbandonedCursor :=
  let abandonedCount := st.abandonedCount subproc
  let abandonedListCount := st.osListCount subproc
  match heap.bind CursorHeap.arenaIdx with
  | some arenaIdx =>
      { osListCount := 0
        start := arenaIdx
        stop := arenaIdx + 1
        bitmapIdx := 0
        subproc := subproc
        visitAll := visitAll
        holdVisitLock := false }
  | none =>
      let visitArenas := abandonedListCount < abandonedCount ∧ 0 < st.arenaCount
      let start :=
        match heap with
        | none => 0
        | some heap => heap.randomNext % st.arenaCount
      { osListCount := abandonedListCount
        start := if visitArenas then start else 0
        stop := if visitArenas then start + st.arenaCount else 0
        bitmapIdx := 0
        subproc := subproc
        visitAll := visitAll
        holdVisitLock := false }

/-- `pa_arena_segment_clear_abandoned_at`; whether a segment of the
sub-process was cleared. -/
def clearAbandonedAt (arenaIdx subproc bitmapIdx : ℕ) (st : AbandonState) :
    Bool × AbandonState :=
  let result := bitmapUnclaim (st.blocksAbandoned arenaIdx) 1 bitmapIdx
  let st :=
    { st with
      blocksAbandoned :=
        Function.update st.blocksAbandoned arenaIdx result.2 }
  if ¬result.1 then (false, st)
  else if st.subproc (.arena arenaIdx bitmapIdx) ≠ subproc then
    (false, { st with
      blocksAbandoned := Function.update st.blocksAbandoned arenaIdx
        (bitmapClaim (st.blocksAbandoned arenaIdx) 1 bitmapIdx).2 })
  else
    (true, { st with
      abandonedCount := Function.update st.abandonedCount subproc
        (st.abandonedCount subproc - 1) })

/-- The loop of `pa_arena_segment_clear_abandoned_next_field` over the last
`left` bits of a field; the bit where a segment was cleared. -/
def visitBits (arenaIdx subproc fieldIdx : ℕ) (field : BitVec 64) :
    (left : ℕ) → AbandonState → Option ℕ × AbandonState
  | 0, st => (none, st)
  | left + 1, st =>
      let bitIdx := 64 - (left + 1)
      let mask := 1#64 <<< bitIdx
      if field &&& mask = mask then
        let result :=
          st.clearAbandonedAt arenaIdx subproc (64 * fieldIdx + bitIdx)
        if result.1 then (some bitIdx, result.2)
        else visitBits arenaIdx subproc fieldIdx field left result.2
      else visitBits arenaIdx subproc fieldIdx field left st

/-- The loop over the last `left` fields of an arena; the bitmap index where a
segment was cleared. -/
def visitFields (arenaIdx subproc : ℕ) :
    (left fieldIdx bitIdx : ℕ) → AbandonState → Option ℕ × AbandonState
  | 0, _, _, st => (none, st)
  | left + 1, fieldIdx, bitIdx, st =>
      let field := st.blocksAbandoned arenaIdx fieldIdx
      if field ≠ 0 then
        match visitBits arenaIdx subproc fieldIdx field (64 - bitIdx) st with
        | (some bit, st) => (some (64 * fieldIdx + bit), st)
        | (none, st) =>
            visitFields arenaIdx subproc left (fieldIdx + 1) 0 st
      else visitFields arenaIdx subproc left (fieldIdx + 1) 0 st

/-- `pa_arena_segment_clear_abandoned_next_field`, with `left` arenas to go;
indices of arenas wrap around. -/
def clearNextField :
    (left fieldIdx bitIdx : ℕ) → AbandonedCursor → AbandonState →
      Option SegmentId × AbandonedCursor × AbandonState
  | 0, _, _, previous, st => (none, previous, st)
  | left + 1, fieldIdx, bitIdx, previous, st =>
      let arenaIdx :=
        if st.arenaCount ≤ previous.start then previous.start % st.arenaCount
        else previous.start
      let following := { previous with start := previous.start + 1 }
      match st.fieldCount arenaIdx with
      | none => clearNextField left 0 0 following st
      | some fieldCount =>
          match visitFields arenaIdx previous.subproc (fieldCount - fieldIdx)
              fieldIdx bitIdx st with
          | (some bitmapIdx, st) =>
              (some (.arena arenaIdx bitmapIdx),
                { previous with bitmapIdx := bitmapIdx + 1 }, st)
          | (none, st) => clearNextField left 0 0 following st

/-- The loop of `pa_arena_segment_clear_abandoned_next_list`; the number of
entries that are left to visit comes with the result. -/
def popNextList (subproc : ℕ) :
    (osListCount : ℕ) → AbandonState → Option ℕ × ℕ × AbandonState
  | 0, st => (none, 0, st)
  | osListCount + 1, st =>
      match (st.osList subproc).first with
      | none => (none, osListCount, st)
      | some segment =>
          let result := st.osClearAbandoned segment false 0
          if result.1 then (some segment, osListCount, result.2)
          else popNextList subproc osListCount result.2

/-- `pa_arena_segment_clear_abandoned_next_list`. -/
def clearNextList (previous : AbandonedCursor) (st : AbandonState) :
    Option SegmentId × AbandonedCursor × AbandonState :=
  let result := popNextList previous.subproc previous.osListCount st
  (result.1.map SegmentId.os,
    { previous with holdVisitLock := true, osListCount := result.2.1 },
    result.2.2)

/-- `_pa_arena_segment_clear_abandoned_next`. -/
def clearAbandonedNext (previous : AbandonedCursor) (st : AbandonState) :
    Option SegmentId × AbandonedCursor × AbandonState :=
  if previous.start < previous.stop then
    match clearNextField (previous.stop - previous.start)
        (previous.bitmapIdx / 64) (previous.bitmapIdx % 64) previous st with
    | (some segment, previous, st) => (some segment, previous, st)
    | (none, previous, st) => st.clearNextList previous
  else st.clearNextList previous

/-- A loop that asks for the next segment until there is none, and marks the
`i`th segment as abandoned again where `remark i` says so.  `none` when the
fuel runs out. -/
def visitAbandoned (remark : ℕ → Bool) :
    (fuel i : ℕ) → AbandonedCursor → AbandonState →
      Option (List SegmentId × AbandonState)
  | 0, _, _, _ => none
  | fuel + 1, i, cursor, st =>
      match st.clearAbandonedNext cursor with
      | (none, _, st) => some ([], st)
      | (some segment, cursor, st) =>
          let st := if remark i then st.markAbandoned segment else st
          (visitAbandoned remark fuel (i + 1) cursor st).map fun result =>
            (segment :: result.1, result.2)

end AbandonState

end Palloc
