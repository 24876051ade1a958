import Palloc.SegmentSpans

/-!
# Segment allocation
-/

namespace Palloc

/-- The end of `pa_segment_alloc`: reserve the slices of the segment info,
and make the rest one free span or the page of a huge segment. -/
def segmentInitSpans (cfg : Config) (st : State) (tid segment : ℕ)
    (guardSlices : ℕ) : Option (Option SlicePtr × State) :=
  let info := st.segments segment
  let (ok, st) := segmentSpanAllocate cfg st segment 0 info.segmentInfoSlices
  if ¬ ok then none
  else
    let info := (st.segments segment).withUsed 0
    let st := st.setSegment segment info
    match info.kind with
    | .normal =>
        some (none, segmentSpanFree cfg st tid segment info.segmentInfoSlices
          (info.sliceEntries - info.segmentInfoSlices) false)
    | .huge =>
        let (ok, st) := segmentSpanAllocate cfg st segment
          info.segmentInfoSlices
          (info.segmentSlices - info.segmentInfoSlices - guardSlices)
        some (if ok then some ⟨segment, info.segmentInfoSlices⟩ else none,
          st)

end Palloc
