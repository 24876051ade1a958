import Palloc.HeapBuffer
import Palloc.JsonText

/-!
# Statistics in JSON

`pa_stats_get_json` prints the statistics into a buffer, one line at a time.
Most lines are formatted into a line buffer of 128 characters first.  This
file gives the whole document for a record, and says when it is what the
call returns.
-/

namespace Palloc

open MachineWord

def cstr (s : String) : CString where
  chars := s.toList.filter (· ≠ '\x00')
  noNul := by simp

/-! ## The record -/

/-- `pa_stat_count_t`. -/
structure StatCount where
  total : BitVec 64
  peak : BitVec 64
  current : BitVec 64

/-- `pa_stats_t`, with the fields of `PA_STAT_FIELDS` by name. -/
structure StatsRecord where
  count : String → StatCount
  counter : String → BitVec 64
  mallocBins : ℕ → StatCount
  pageBins : ℕ → StatCount

inductive StatKind where
  | count
  | counter
  deriving DecidableEq

/-- `PA_STAT_FIELDS`. -/
def statFields : List (StatKind × String) :=
  [(.count, "pages"), (.count, "reserved"), (.count, "committed"),
    (.counter, "reset"), (.counter, "purged"), (.count, "page_committed"),
    (.count, "pages_abandoned"), (.count, "threads"),
    (.count, "malloc_normal"), (.count, "malloc_huge"),
    (.count, "malloc_requested"), (.counter, "mmap_calls"),
    (.counter, "commit_calls"), (.counter, "reset_calls"),
    (.counter, "purge_calls"), (.counter, "arena_count"),
    (.counter, "malloc_normal_count"), (.counter, "malloc_huge_count"),
    (.counter, "malloc_guarded_count"), (.counter, "arena_rollback_count"),
    (.counter, "arena_purges"), (.counter, "pages_extended"),
    (.counter, "pages_retire"), (.counter, "page_searches"),
    (.counter, "page_searches_count"), (.count, "segments"),
    (.count, "segments_abandoned"), (.count, "segments_cache"),
    (.count, "_segments_reserved"), (.counter, "pages_reclaim_on_alloc"),
    (.counter, "pages_reclaim_on_free"), (.counter, "pages_reabandon_full"),
    (.counter, "pages_unabandon_busy_wait")]

/-- What `pa_process_info` gives. -/
structure ProcessInfo where
  elapsed : BitVec 64
  userTime : BitVec 64
  sysTime : BitVec 64
  currentRss : BitVec 64
  peakRss : BitVec 64
  currentCommit : BitVec 64
  peakCommit : BitVec 64
  pageFaults : BitVec 64

/-- What a call depends on: what the stack holds at its line buffers, the
growth of an internal buffer, the process and the statistics. -/
structure StatsCall where
  stack : ℕ → Char
  grow : BufferGrowth
  process : ProcessInfo
  stats : StatsRecord

/-! ## Printing -/

/-- The C string at the start of a memory, up to a number of characters. -/
def cString (mem : ℕ → Char) (limit : ℕ) : List Char :=
  ((List.range limit).map mem).takeWhile (· ≠ '\x00')

/-- `_pa_snprintf(buf, 128, ...)` and `buf[127] = 0`. -/
def lineOf (stack : ℕ → Char) (fmt : CString) (args : List FormatArg) :
    List Char :=
  match (vsnprintf (some stack) 128 (some fmt) args).2 with
  | some o => cString (o.store 127 '\x00').mem 128
  | none => []

/-- `PA_STAT_VERSION` and `PA_MALLOC_VERSION`. -/
def statVersion : BitVec 64 := 4
def mallocVersion : BitVec 64 := 227

/-- The page size of a bin; there is no `PA_LARGE_PAGE_SIZE`. -/
def binPageSize (binsize : ℕ) : ℕ :=
  if binsize ≤ smallObjSizeMax then smallPageSize
  else if binsize ≤ mediumObjSizeMax then mediumPageSize
  else 0

def commaArg (addComma : Bool) : FormatArg :=
  .string (some (cstr (if addComma then "," else "")))

def countBinFormat : CString :=
  cstr "%s\x7b \"total\": %lld, \"peak\": %lld, \"current\": %lld, \"block_size\": %zu, \"page_size\": %zu \x7d%s\n"

def countFormat : CString :=
  cstr "%s\x7b \"total\": %lld, \"peak\": %lld, \"current\": %lld \x7d%s\n"

def countNameFormat : CString := cstr "  \"%s\": "
def valueFormat : CString := cstr "  \"%s\": %lld,\n"
def sizeFormat : CString := cstr "    \"%s\": %zu%s\n"

namespace StatsCall

variable (call : StatsCall)

/-- `pa_heap_buf_print`. -/
def print (msg : List Char) (h : HeapBuf) : HeapBuf :=
  h.print call.grow msg

/-- `pa_heap_buf_print_count_bin`. -/
def printCountBin (lead : String) (stat : StatCount) (bin : ℕ)
    (addComma : Bool) (h : HeapBuf) : HeapBuf :=
  let binsize := queueBlockSize bin
  call.print
    (lineOf call.stack countBinFormat
      [.string (some (cstr lead)), .word stat.total, .word stat.peak,
        .word stat.current, .word (BitVec.ofNat 64 binsize),
        .word (BitVec.ofNat 64 (binPageSize binsize)), commaArg addComma]) h

/-- `pa_heap_buf_print_count`. -/
def printCount (lead : String) (stat : StatCount) (addComma : Bool)
    (h : HeapBuf) : HeapBuf :=
  call.print
    (lineOf call.stack countFormat
      [.string (some (cstr lead)), .word stat.total, .word stat.peak,
        .word stat.current, commaArg addComma]) h

/-- `pa_heap_buf_print_count_value`. -/
def printCountValue (name : String) (stat : StatCount) (h : HeapBuf) :
    HeapBuf :=
  call.printCount "" stat true
    (call.print
      (lineOf call.stack countNameFormat [.string (some (cstr name))]) h)

/-- `pa_heap_buf_print_value`. -/
def printValue (name : String) (val : BitVec 64) (h : HeapBuf) : HeapBuf :=
  call.print
    (lineOf call.stack valueFormat
      [.string (some (cstr name)), .word val]) h

/-- `pa_heap_buf_print_size`. -/
def printSize (name : String) (val : BitVec 64) (addComma : Bool)
    (h : HeapBuf) : HeapBuf :=
  call.print
    (lineOf call.stack sizeFormat
      [.string (some (cstr name)), .word val, commaArg addComma]) h

def printProcess (h : HeapBuf) : HeapBuf :=
  let p := call.process
  let h := call.print "  \"process\": \x7b\n".toList h
  let h := call.printSize "elapsed_msecs" p.elapsed true h
  let h := call.printSize "user_msecs" p.userTime true h
  let h := call.printSize "system_msecs" p.sysTime true h
  let h := call.printSize "page_faults" p.pageFaults true h
  let h := call.printSize "rss_current" p.currentRss true h
  let h := call.printSize "rss_peak" p.peakRss true h
  let h := call.printSize "commit_current" p.currentCommit true h
  let h := call.printSize "commit_peak" p.peakCommit false h
  call.print "  \x7d,\n".toList h

/-- `PA_STAT_COUNT` or `PA_STAT_COUNTER`. -/
def printField (field : StatKind × String) (h : HeapBuf) : HeapBuf :=
  match field.1 with
  | .count => call.printCountValue field.2 (call.stats.count field.2) h
  | .counter => call.printValue field.2 (call.stats.counter field.2) h

def printBins (bins : ℕ → StatCount) (h : HeapBuf) : HeapBuf :=
  (List.range (binHuge + 1)).foldl
    (fun h i => call.printCountBin "    " (bins i) i (i ≠ binHuge) h) h

def printAll (h : HeapBuf) : HeapBuf :=
  let h := call.print "\x7b\n".toList h
  let h := call.printValue "stat_version" statVersion h
  let h := call.printValue "palloc_version" mallocVersion h
  let h := call.printProcess h
  let h := statFields.foldl (fun h field => call.printField field h) h
  let h := call.print "  \"malloc_bins\": [\n".toList h
  let h := call.printBins call.stats.mallocBins h
  let h := call.print "  ],\n".toList h
  let h := call.print "  \"page_bins\": [\n".toList h
  let h := call.printBins call.stats.pageBins h
  let h := call.print "  ]\n".toList h
  call.print "\x7d\n".toList h

def internalBuf : Option HeapBuf :=
  let grown := HeapBuf.expand call.grow ⟨.init fun _ => '\x00', 0, true, 0⟩
  if grown.1 then some grown.2 else none

/-- The buffer of the caller, cleared, or an internal one. -/
def startBuf (outputSize : ℕ) (outputBuf : Option (ℕ → Char)) :
    Option HeapBuf :=
  match outputBuf with
  | some mem =>
    if 0 < outputSize then
      let cleared := fun i => if i < outputSize then '\x00' else mem i
      some ⟨.init cleared, outputSize, false, 0⟩
    else call.internalBuf
  | none => call.internalBuf

/-- `pa_stats_get_json`; the buffer that is returned, if it is. -/
def getJson (outputSize : ℕ) (outputBuf : Option (ℕ → Char)) :
    Option HeapBuf :=
  (call.startBuf outputSize outputBuf).bind fun h =>
    let h := call.printAll h
    if h.size ≤ h.out.pos then none else some h

end StatsCall

/-! ## Lines -/

theorem cString_of_isString {mem : ℕ → Char} {len limit : ℕ}
    (hstring : IsString mem len) (hlen : len < limit) :
    cString mem limit = (List.range len).map mem := by
  obtain ⟨more, rfl⟩ : ∃ more, limit = len + (more + 1) :=
    ⟨limit - len - 1, by omega⟩
  have hfirst : ∀ c ∈ (List.range len).map mem,
      decide (c ≠ '\x00') = true := by
    intro c hc
    obtain ⟨i, hi, rfl⟩ := List.mem_map.mp hc
    simpa using hstring.2 i (List.mem_range.mp hi)
  unfold cString
  rw [List.range_add, List.map_append, List.takeWhile_append_of_pos hfirst,
    List.range_succ_eq_map]
  simp [hstring.1]

theorem lineOf_eq (stack : ℕ → Char) (fmt : CString) (args : List FormatArg) :
    lineOf stack fmt args = (printed stack 127 fmt.chars args).text := by
  have hwithin := printed_within stack 127 fmt.chars args
  have hpos := hwithin.pos_le
  have hsealed : IsString
      (((printed stack 127 fmt.chars args).store
        (printed stack 127 fmt.chars args).pos '\x00').store 127 '\x00').mem
      (printed stack 127 fmt.chars args).pos := by
    refine ⟨?_, ?_⟩
    · simp [Output.store, Function.update_apply]
    · intro i hi
      have hne : i ≠ 127 := by omega
      have hchar := hwithin.isString.2 i hi
      simpa [Output.store, hne] using hchar
  unfold lineOf
  rw [vsnprintf_eq (by decide)]
  dsimp only
  rw [cString_of_isString hsealed (by omega)]
  refine (text_eq_of_mem (by simp) ?_).symm
  intro i hi
  simp only [List.length_map, List.length_range] at hi
  have hne : i ≠ 127 := by omega
  simp [Output.store, hne, hi.ne]

/-- A string that is printed: as it is, or through a line buffer, where the
last argument is the text of the line. -/
inductive Message where
  | literal (s : List Char)
  | line (fmt : CString) (args : List FormatArg) (full : List Char)

namespace Message

def text (stack : ℕ → Char) : Message → List Char
  | .literal s => s
  | .line fmt args _ => lineOf stack fmt args

def full : Message → List Char
  | .literal s => s
  | .line _ _ full => full

def Fits (m : Message) : Prop := m.full.length ≤ 127

/-- The text of a line is that of its format, and another string is short. -/
def Sound : Message → Prop
  | .literal s => s.length ≤ 127 ∧ '\x00' ∉ s
  | .line fmt args full => Formats fmt.chars args full

variable {stack : ℕ → Char} {m : Message}

theorem text_of_fits (hsound : m.Sound) (hfits : m.Fits) :
    m.text stack = m.full := by
  cases m with
  | literal s => rfl
  | line fmt args full =>
    rw [text, lineOf_eq]
    exact hsound.printed_text hfits stack

theorem length_of_not_fits (hsound : m.Sound) (hnot : ¬ m.Fits) :
    (m.text stack).length < m.full.length := by
  cases m with
  | literal s => exact absurd hsound.1 hnot
  | line fmt args full =>
    have hlen := printed_length stack 127 fmt.chars args
    simp only [Fits, not_le] at hnot
    rw [text, lineOf_eq]
    exact hlen.trans_lt hnot

theorem length_le (hsound : m.Sound) :
    (m.text stack).length ≤ m.full.length := by
  by_cases hfits : m.Fits
  · rw [text_of_fits hsound hfits]
  · exact (length_of_not_fits hsound hfits).le

theorem text_noNul (hsound : m.Sound) : '\x00' ∉ m.text stack := by
  cases m with
  | literal s => exact hsound.2
  | line fmt args full =>
    have hwithin := printed_within stack 127 fmt.chars args
    rw [text, lineOf_eq]
    intro hmem
    obtain ⟨i, hi, heq⟩ := List.mem_map.mp hmem
    exact hwithin.noNul i (List.mem_range.mp hi) heq

end Message

/-! ## Printing messages -/

def HoldsString (mem : ℕ → Char) (s : List Char) : Prop :=
  IsString mem s.length ∧ (List.range s.length).map mem = s

namespace StatsCall

def printMessages (call : StatsCall) (messages : List Message)
    (h : HeapBuf) : HeapBuf :=
  messages.foldl (fun h m => call.print (m.text call.stack) h) h

variable {call : StatsCall} {h : HeapBuf}

theorem printMessages_prints (hused : h.out.pos < h.size) (m : Message)
    (messages : List Message) :
    h.Prints call.grow (call.printMessages (m :: messages) h)
      ((m :: messages).flatMap (Message.text call.stack)) := by
  have hfirst : h.Prints call.grow (call.print (m.text call.stack) h)
      (m.text call.stack) := HeapBuf.print_prints _ hused
  rw [List.flatMap_cons]
  induction messages generalizing h m with
  | nil => simpa [printMessages] using hfirst
  | cons next messages ih =>
    rw [List.flatMap_cons]
    exact hfirst.trans (ih hfirst.used_lt next
      (HeapBuf.print_prints _ hfirst.used_lt))

theorem flatMap_text_of_fits {messages : List Message}
    (hsound : ∀ m ∈ messages, m.Sound) (hfits : ∀ m ∈ messages, m.Fits) :
    messages.flatMap (Message.text call.stack) =
      messages.flatMap Message.full :=
  List.flatMap_congr fun m hm =>
    Message.text_of_fits (hsound m hm) (hfits m hm)

theorem flatMap_text_length_le {messages : List Message}
    (hsound : ∀ m ∈ messages, m.Sound) :
    (messages.flatMap (Message.text call.stack)).length ≤
      (messages.flatMap Message.full).length := by
  induction messages with
  | nil => rfl
  | cons m messages ih =>
    rw [List.forall_mem_cons] at hsound
    simp only [List.flatMap_cons, List.length_append]
    exact Nat.add_le_add (Message.length_le hsound.1) (ih hsound.2)

theorem fits_of_length_le {messages : List Message}
    (hsound : ∀ m ∈ messages, m.Sound)
    (hlen : (messages.flatMap Message.full).length ≤
      (messages.flatMap (Message.text call.stack)).length) :
    ∀ m ∈ messages, m.Fits := by
  induction messages with
  | nil => exact fun m hm => absurd hm List.not_mem_nil
  | cons m messages ih =>
    rw [List.forall_mem_cons] at hsound ⊢
    have hrest := @flatMap_text_length_le call messages hsound.2
    have hfirst := @Message.length_le call.stack m hsound.1
    simp only [List.flatMap_cons, List.length_append] at hlen
    refine ⟨?_, ih hsound.2 (by omega)⟩
    by_contra hnot
    have hlt := @Message.length_of_not_fits call.stack m hsound.1 hnot
    omega

/-- From an empty buffer the whole text is printed exactly when every message
fits in a line buffer and all of it in the buffer. -/
theorem holdsString_iff (hused : h.out.pos < h.size)
    (hempty : h.out.text = [])
    (hterminated : h.canRealloc = false → h.Terminated)
    {m : Message} {messages : List Message}
    (hsound : ∀ m' ∈ m :: messages, m'.Sound) :
    HoldsString (call.printMessages (m :: messages) h).out.mem
        ((m :: messages).flatMap Message.full) ↔
      (∀ m' ∈ m :: messages, m'.Fits) ∧
        h.Room call.grow ((m :: messages).flatMap Message.full).length := by
  have hprints := @printMessages_prints call h hused m messages
  have hend := hprints.terminated hterminated
  have hle := @flatMap_text_length_le call (m :: messages) hsound
  constructor
  · intro hstring
    have hpos : ((m :: messages).flatMap Message.full).length ≤
        (call.printMessages (m :: messages) h).out.pos := by
      by_contra hlt
      exact hstring.1.2 _ (by omega) hend
    have hlen := hprints.length_le
    rw [text_length, hempty, List.length_nil, Nat.zero_add] at hlen
    have hfits := fits_of_length_le hsound (hpos.trans hlen)
    refine ⟨hfits, ?_⟩
    by_contra hnot
    rw [← @flatMap_text_of_fits call _ hsound hfits] at hnot hpos
    have hlt := hprints.short hnot
    rw [text_length, hempty, List.length_nil, Nat.zero_add] at hlt
    omega
  · rintro ⟨hfits, hroom⟩
    rw [← @flatMap_text_of_fits call _ hsound hfits] at hroom ⊢
    have htext := hprints.full hroom
    rw [hempty, List.nil_append] at htext
    have hpos : (call.printMessages (m :: messages) h).out.pos =
        ((m :: messages).flatMap (Message.text call.stack)).length := by
      rw [← htext, text_length]
    refine ⟨⟨?_, ?_⟩, ?_⟩
    · rw [← hpos]
      exact hend
    · intro i hi heq
      have hmem : '\x00' ∈
          (m :: messages).flatMap (Message.text call.stack) := by
        rw [← htext, ← heq]
        exact List.mem_map.mpr ⟨i, List.mem_range.mpr (by omega), rfl⟩
      obtain ⟨m', hm', hnul⟩ := List.mem_flatMap.mp hmem
      exact Message.text_noNul (hsound m' hm') hnul
    · rw [← hpos]
      exact htext

end StatsCall

end Palloc
