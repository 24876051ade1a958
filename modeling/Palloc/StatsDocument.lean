import Palloc.StatsJson
import Mathlib.Algebra.Order.BigOperators.Group.List

/-!
# The document of a statistics record

The lines that `pa_stats_get_json` prints, each with its whole text.  Together
they are a JSON document for the record.  A call returns it exactly when
every line has room in a line buffer and the lines have room in the buffer.
-/

namespace Palloc

open MachineWord

/-! ## Text of the lines -/

/-- A number that is printed with `%lld`. -/
def lldText (x : BitVec 64) : List Char :=
  (if x.toInt < 0 then some '-' else none).toList ++ numeral 10 x.toInt.natAbs

/-- A number that is printed with `%zu`. -/
def zuText (x : BitVec 64) : List Char := numeral 10 x.toNat

variable {fmt text : List Char} {args : List FormatArg}

theorem Formats.str (s : CString) (hformats : Formats fmt args text) :
    Formats ('%' :: 's' :: fmt) (.string (some s) :: args)
      (s.chars ++ text) :=
  @Formats.string ('s' :: fmt) fmt text ⟨none, true, ' ', 0, 'd', 's'⟩ s args
    rfl rfl rfl hformats

theorem Formats.lld (x : BitVec 64) (hformats : Formats fmt args text) :
    Formats ('%' :: 'l' :: 'l' :: 'd' :: fmt) (.word x :: args)
      (lldText x ++ text) :=
  @Formats.number ('l' :: 'l' :: 'd' :: fmt) fmt text
    ⟨none, true, ' ', 0, 'L', 'd'⟩ x args rfl (Or.inl rfl) rfl hformats

theorem Formats.zu (x : BitVec 64) (hformats : Formats fmt args text) :
    Formats ('%' :: 'z' :: 'u' :: fmt) (.word x :: args)
      (zuText x ++ text) :=
  @Formats.number ('z' :: 'u' :: fmt) fmt text
    ⟨none, true, ' ', 0, 'z', 'u'⟩ x args rfl (Or.inr rfl) rfl hformats

theorem Formats.letters (letters : List Char)
    (hletters : letters.all (fun c => c ≠ '%' && isLiteral c) = true)
    (hformats : Formats fmt args text) :
    Formats (letters ++ fmt) args (letters ++ text) :=
  hformats.literals (by simpa [List.all_eq_true] using hletters)

def commaText (addComma : Bool) : List Char := if addComma then [','] else []

theorem Formats.comma (addComma : Bool) (hformats : Formats fmt args text) :
    Formats ('%' :: 's' :: fmt) (commaArg addComma :: args)
      (commaText addComma ++ text) := by
  have hstr := hformats.str (cstr (if addComma then "," else ""))
  cases addComma <;> exact hstr

def inlineMembers : List (List Char × List Char) → List Char
  | [] => []
  | [(name, value)] => memberText [' '] name value
  | (name, value) :: members =>
    memberText [' '] name value ++ ',' :: inlineMembers members

def inlineObject (members : List (List Char × List Char)) : List Char :=
  '\x7b' :: (inlineMembers members ++ [' ', '\x7d'])

def countMembers (stat : StatCount) : List (List Char × List Char) :=
  [("total".toList, lldText stat.total), ("peak".toList, lldText stat.peak),
    ("current".toList, lldText stat.current)]

def binMembers (stat : StatCount) (binsize : ℕ) :
    List (List Char × List Char) :=
  countMembers stat ++
    [("block_size".toList, zuText (BitVec.ofNat 64 binsize)),
      ("page_size".toList, zuText (BitVec.ofNat 64 (binPageSize binsize)))]

/-! ## The lines -/

namespace Message

def countBin (lead : String) (stat : StatCount) (bin : ℕ) (addComma : Bool) :
    Message :=
  .line countBinFormat
    [.string (some (cstr lead)), .word stat.total, .word stat.peak,
      .word stat.current, .word (BitVec.ofNat 64 (queueBlockSize bin)),
      .word (BitVec.ofNat 64 (binPageSize (queueBlockSize bin))),
      commaArg addComma]
    ((cstr lead).chars ++ (inlineObject (binMembers stat (queueBlockSize bin))
      ++ (commaText addComma ++ ['\n'])))

def count (lead : String) (stat : StatCount) (addComma : Bool) : Message :=
  .line countFormat
    [.string (some (cstr lead)), .word stat.total, .word stat.peak,
      .word stat.current, commaArg addComma]
    ((cstr lead).chars ++ (inlineObject (countMembers stat)
      ++ (commaText addComma ++ ['\n'])))

def countName (name : String) : Message :=
  .line countNameFormat [.string (some (cstr name))]
    (memberText [' ', ' '] (cstr name).chars [])

def value (name : String) (val : BitVec 64) : Message :=
  .line valueFormat [.string (some (cstr name)), .word val]
    (memberText [' ', ' '] (cstr name).chars (lldText val) ++ [',', '\n'])

def size (name : String) (val : BitVec 64) (addComma : Bool) : Message :=
  .line sizeFormat [.string (some (cstr name)), .word val, commaArg addComma]
    (memberText [' ', ' ', ' ', ' '] (cstr name).chars (zuText val)
      ++ (commaText addComma ++ ['\n']))

theorem literal_sound (s : List Char)
    (hshort : s.length ≤ 127 ∧ '\x00' ∉ s) : (literal s).Sound := hshort

theorem sound_of {fmt : CString} {args : List FormatArg}
    {full letters text : List Char} (hfmt : fmt.chars = letters)
    (hformats : Formats letters args text) (hfull : full = text) :
    (line fmt args full).Sound := by
  unfold Sound
  dsimp only
  rwa [hfmt, hfull]

theorem value_sound (name : String) (val : BitVec 64) :
    (value name val).Sound := by
  have hformat : valueFormat.chars = [' ', ' ', '"'] ++ '%' :: 's' ::
      (['"', ':', ' '] ++ '%' :: 'l' :: 'l' :: 'd' :: ([',', '\n'] ++ [])) := by
    decide
  have hformats := Formats.letters [' ', ' ', '"'] (by decide)
    (.str (cstr name) (.letters ['"', ':', ' '] (by decide)
      (.lld val (.letters [',', '\n'] (by decide) (.nil [])))))
  exact sound_of hformat hformats (by simp [memberText])

theorem size_sound (name : String) (val : BitVec 64) (addComma : Bool) :
    (size name val addComma).Sound := by
  have hformat : sizeFormat.chars = [' ', ' ', ' ', ' ', '"'] ++
      '%' :: 's' :: (['"', ':', ' '] ++ '%' :: 'z' :: 'u' ::
        '%' :: 's' :: (['\n'] ++ [])) := by
    decide
  have hformats := Formats.letters [' ', ' ', ' ', ' ', '"'] (by decide)
    (.str (cstr name) (.letters ['"', ':', ' '] (by decide)
      (.zu val (.comma addComma (.letters ['\n'] (by decide) (.nil []))))))
  exact sound_of hformat hformats (by simp [memberText])

theorem countName_sound (name : String) : (countName name).Sound := by
  have hformat : countNameFormat.chars = [' ', ' ', '"'] ++ '%' :: 's' ::
      (['"', ':', ' '] ++ []) := by
    decide
  have hformats := Formats.letters [' ', ' ', '"'] (by decide)
    (.str (cstr name) (.letters ['"', ':', ' '] (by decide) (.nil [])))
  exact sound_of hformat hformats (by simp [memberText])

theorem count_sound (lead : String) (stat : StatCount) (addComma : Bool) :
    (count lead stat addComma).Sound := by
  have hformat : countFormat.chars = '%' :: 's' ::
      ("\x7b \"total\": ".toList ++ '%' :: 'l' :: 'l' :: 'd' ::
        (", \"peak\": ".toList ++ '%' :: 'l' :: 'l' :: 'd' ::
          (", \"current\": ".toList ++ '%' :: 'l' :: 'l' :: 'd' ::
            (" \x7d".toList ++ '%' :: 's' :: (['\n'] ++ []))))) := by
    decide +kernel
  have hformats := Formats.str (cstr lead)
    (.letters "\x7b \"total\": ".toList (by decide) (.lld stat.total
      (.letters ", \"peak\": ".toList (by decide) (.lld stat.peak
        (.letters ", \"current\": ".toList (by decide) (.lld stat.current
          (.letters " \x7d".toList (by decide)
            (.comma addComma (.letters ['\n'] (by decide) (.nil []))))))))))
  exact sound_of hformat hformats (by simp [inlineObject, inlineMembers, countMembers, memberText])

theorem countBin_sound (lead : String) (stat : StatCount) (bin : ℕ)
    (addComma : Bool) : (countBin lead stat bin addComma).Sound := by
  have hformat : countBinFormat.chars = '%' :: 's' ::
      ("\x7b \"total\": ".toList ++ '%' :: 'l' :: 'l' :: 'd' ::
        (", \"peak\": ".toList ++ '%' :: 'l' :: 'l' :: 'd' ::
          (", \"current\": ".toList ++ '%' :: 'l' :: 'l' :: 'd' ::
            (", \"block_size\": ".toList ++ '%' :: 'z' :: 'u' ::
              (", \"page_size\": ".toList ++ '%' :: 'z' :: 'u' ::
                (" \x7d".toList ++ '%' :: 's' :: (['\n'] ++ []))))))) := by
    decide +kernel
  have hformats := Formats.str (cstr lead)
    (.letters "\x7b \"total\": ".toList (by decide) (.lld stat.total
      (.letters ", \"peak\": ".toList (by decide) (.lld stat.peak
        (.letters ", \"current\": ".toList (by decide) (.lld stat.current
          (.letters ", \"block_size\": ".toList (by decide)
            (.zu (BitVec.ofNat 64 (queueBlockSize bin))
              (.letters ", \"page_size\": ".toList (by decide)
                (.zu (BitVec.ofNat 64 (binPageSize (queueBlockSize bin)))
                  (.letters " \x7d".toList (by decide)
                    (.comma addComma
                      (.letters ['\n'] (by decide) (.nil []))))))))))))))
  exact sound_of hformat hformats (by simp [inlineObject, inlineMembers, binMembers, countMembers, memberText])

end Message

/-! ## The document -/

namespace StatsCall

variable (call : StatsCall)

def processMessages : List Message :=
  let p := call.process
  [.literal "  \"process\": \x7b\n".toList,
    .size "elapsed_msecs" p.elapsed true,
    .size "user_msecs" p.userTime true,
    .size "system_msecs" p.sysTime true,
    .size "page_faults" p.pageFaults true,
    .size "rss_current" p.currentRss true,
    .size "rss_peak" p.peakRss true,
    .size "commit_current" p.currentCommit true,
    .size "commit_peak" p.peakCommit false,
    .literal "  \x7d,\n".toList]

def fieldMessages (field : StatKind × String) : List Message :=
  match field.1 with
  | .count =>
    [.countName field.2, .count "" (call.stats.count field.2) true]
  | .counter => [.value field.2 (call.stats.counter field.2)]

def binMessages (bins : ℕ → StatCount) : List Message :=
  (List.range (binHuge + 1)).map fun i =>
    .countBin "    " (bins i) i (i ≠ binHuge)

def messages : List Message :=
  [.literal "\x7b\n".toList, .value "stat_version" statVersion,
      .value "palloc_version" mallocVersion] ++
    (call.processMessages ++ (statFields.flatMap call.fieldMessages ++
      ([.literal "  \"malloc_bins\": [\n".toList] ++
        (binMessages call.stats.mallocBins ++
          ([.literal "  ],\n".toList,
              .literal "  \"page_bins\": [\n".toList] ++
            (binMessages call.stats.pageBins ++
              [.literal "  ]\n".toList, .literal "\x7d\n".toList]))))))

def document : List Char := call.messages.flatMap Message.full

theorem printMessages_append (first second : List Message) (h : HeapBuf) :
    call.printMessages (first ++ second) h =
      call.printMessages second (call.printMessages first h) :=
  List.foldl_append

theorem printMessages_cons (m : Message) (messages : List Message)
    (h : HeapBuf) :
    call.printMessages (m :: messages) h =
      call.printMessages messages (call.print (m.text call.stack) h) := rfl

theorem printMessages_nil (h : HeapBuf) : call.printMessages [] h = h := rfl

theorem printSize_eq (name : String) (val : BitVec 64) (addComma : Bool)
    (h : HeapBuf) :
    call.printSize name val addComma h =
      call.print ((Message.size name val addComma).text call.stack) h := rfl

theorem printValue_eq (name : String) (val : BitVec 64) (h : HeapBuf) :
    call.printValue name val h =
      call.print ((Message.value name val).text call.stack) h := rfl

theorem printCountValue_eq (name : String) (stat : StatCount) (h : HeapBuf) :
    call.printCountValue name stat h =
      call.print ((Message.count "" stat true).text call.stack)
        (call.print ((Message.countName name).text call.stack) h) := rfl

theorem printCountBin_eq (lead : String) (stat : StatCount) (bin : ℕ)
    (addComma : Bool) (h : HeapBuf) :
    call.printCountBin lead stat bin addComma h =
      call.print ((Message.countBin lead stat bin addComma).text call.stack)
        h := rfl

theorem printProcess_eq (h : HeapBuf) :
    call.printProcess h = call.printMessages call.processMessages h := by
  simp only [printProcess, processMessages, printMessages_cons,
    printMessages_nil, printSize_eq, Message.text]

theorem printField_eq (field : StatKind × String) (h : HeapBuf) :
    call.printField field h =
      call.printMessages (call.fieldMessages field) h := by
  obtain ⟨kind, name⟩ := field
  cases kind with
  | count => exact call.printCountValue_eq name _ h
  | counter => exact call.printValue_eq name _ h

theorem printFields_eq (fields : List (StatKind × String)) (h : HeapBuf) :
    fields.foldl (fun h field => call.printField field h) h =
      call.printMessages (fields.flatMap call.fieldMessages) h := by
  induction fields generalizing h with
  | nil => rfl
  | cons field fields ih =>
    rw [List.foldl_cons, ih, List.flatMap_cons, printMessages_append,
      printField_eq]

theorem printBins_eq (bins : ℕ → StatCount) (h : HeapBuf) :
    call.printBins bins h = call.printMessages (binMessages bins) h := by
  unfold printBins printMessages binMessages
  rw [List.foldl_map]
  simp only [printCountBin_eq]

theorem printAll_eq (h : HeapBuf) :
    call.printAll h = call.printMessages call.messages h := by
  unfold printAll messages
  simp only [printMessages_append, printMessages_cons, printMessages_nil,
    printProcess_eq, printFields_eq, printBins_eq, printValue_eq,
    Message.text]

theorem messages_sound : ∀ m ∈ call.messages, m.Sound := by
  have hfields : ∀ fields : List (StatKind × String),
      ∀ m ∈ fields.flatMap call.fieldMessages, m.Sound := by
    intro fields m hm
    obtain ⟨⟨kind, name⟩, _, hm⟩ := List.mem_flatMap.mp hm
    cases kind with
    | count =>
      simp only [fieldMessages, List.mem_cons, List.not_mem_nil, or_false]
        at hm
      rcases hm with rfl | rfl
      · exact Message.countName_sound name
      · exact Message.count_sound "" _ true
    | counter =>
      simp only [fieldMessages, List.mem_singleton] at hm
      rw [hm]
      exact Message.value_sound name _
  have hbins : ∀ (bins : ℕ → StatCount), ∀ m ∈ binMessages bins, m.Sound := by
    intro bins m hm
    obtain ⟨i, _, rfl⟩ := List.mem_map.mp hm
    exact Message.countBin_sound "    " (bins i) i _
  have hprocess : ∀ m ∈ call.processMessages, m.Sound := by
    intro m hm
    simp only [processMessages, List.mem_cons, List.not_mem_nil, or_false]
      at hm
    rcases hm with rfl | rfl | rfl | rfl | rfl | rfl | rfl | rfl | rfl | rfl
    · exact Message.literal_sound _ (by decide)
    · exact Message.size_sound _ _ _
    · exact Message.size_sound _ _ _
    · exact Message.size_sound _ _ _
    · exact Message.size_sound _ _ _
    · exact Message.size_sound _ _ _
    · exact Message.size_sound _ _ _
    · exact Message.size_sound _ _ _
    · exact Message.size_sound _ _ _
    · exact Message.literal_sound _ (by decide)
  intro m hm
  simp only [messages, List.mem_append, List.mem_cons, List.not_mem_nil,
    or_false] at hm
  rcases hm with (rfl | rfl | rfl) | hm | hm | rfl | hm | (rfl | rfl) | hm |
    rfl | rfl
  · exact Message.literal_sound _ (by decide)
  · exact Message.value_sound _ _
  · exact Message.value_sound _ _
  · exact hprocess m hm
  · exact hfields _ m hm
  · exact Message.literal_sound _ (by decide)
  · exact hbins _ m hm
  · exact Message.literal_sound _ (by decide)
  · exact Message.literal_sound _ (by decide)
  · exact hbins _ m hm
  · exact Message.literal_sound _ (by decide)
  · exact Message.literal_sound _ (by decide)

end StatsCall

/-! ## The document as JSON -/

instance (s : List Char) : Decidable (IsName s) :=
  List.decidableBAll (fun c => c ≠ '"' ∧ c ≠ '\\' ∧ ' ' ≤ c) s

instance (s : List Char) : Decidable (IsBlank s) :=
  List.decidableBAll
    (fun c => c = ' ' ∨ c = '\n' ∨ c = '\r' ∨ c = '\t') s

theorem lldText_json (x : BitVec 64) :
    JsonText (.number x.toInt) (lldText x) :=
  .number (numberText_int x.toInt)

theorem zuText_json (x : BitVec 64) : JsonText (.number x.toNat) (zuText x) :=
  .number (numberText_nat x.toNat)

def countJson (stat : StatCount) : List (List Char × Json) :=
  [("total".toList, .number stat.total.toInt),
    ("peak".toList, .number stat.peak.toInt),
    ("current".toList, .number stat.current.toInt)]

def binJson (stat : StatCount) (binsize : ℕ) : List (List Char × Json) :=
  countJson stat ++
    [("block_size".toList, .number (BitVec.ofNat 64 binsize).toNat),
      ("page_size".toList,
        .number (BitVec.ofNat 64 (binPageSize binsize)).toNat)]

def MemberText (member : List Char × Json) (text : List Char × List Char) :
    Prop :=
  IsName member.1 ∧ text.1 = member.1 ∧ JsonText member.2 text.2

theorem memberText_mk {name value : List Char} {j : Json}
    (hname : IsName name) (htext : JsonText j value) :
    MemberText (name, j) (name, value) := ⟨hname, rfl, htext⟩

theorem inlineMembers_json {members : List (List Char × Json)}
    {texts : List (List Char × List Char)} (hne : members ≠ [])
    (htexts : List.Forall₂ MemberText members texts) :
    MembersText members (inlineMembers texts) := by
  have hspace : IsBlank [' '] := by decide
  induction htexts with
  | nil => exact absurd rfl hne
  | @cons member text members texts hfirst hrest ih =>
    obtain ⟨hname, hsame, htext⟩ := hfirst
    obtain ⟨name, value⟩ := text
    cases hsame
    cases hrest with
    | nil =>
      simpa [inlineMembers, memberText] using
        MembersText.single hspace hname (htext.before hspace)
    | cons hnext hrest =>
      have hcons := MembersText.cons hspace hname (htext.before hspace)
        (ih (List.cons_ne_nil _ _))
      simpa [inlineMembers, memberText] using hcons

theorem inlineObject_json {members : List (List Char × Json)}
    {texts : List (List Char × List Char)} (hne : members ≠ [])
    (htexts : List.Forall₂ MemberText members texts) :
    JsonText (.object members) (inlineObject texts) := by
  have hspace : IsBlank [' '] := by decide
  have hobject := JsonText.object ((inlineMembers_json hne htexts).after hspace)
  simpa [inlineObject] using hobject

theorem countText_json (stat : StatCount) :
    JsonText (.object (countJson stat)) (inlineObject (countMembers stat)) := by
  refine inlineObject_json (by simp [countJson]) ?_
  exact .cons (memberText_mk (by decide) (lldText_json _))
    (.cons (memberText_mk (by decide) (lldText_json _))
      (.cons (memberText_mk (by decide) (lldText_json _)) .nil))

theorem binText_json (stat : StatCount) (binsize : ℕ) :
    JsonText (.object (binJson stat binsize))
      (inlineObject (binMembers stat binsize)) := by
  refine inlineObject_json (by simp [binJson, countJson]) ?_
  exact .cons (memberText_mk (by decide) (lldText_json _))
    (.cons (memberText_mk (by decide) (lldText_json _))
      (.cons (memberText_mk (by decide) (lldText_json _))
        (.cons (memberText_mk (by decide) (zuText_json _))
          (.cons (memberText_mk (by decide) (zuText_json _)) .nil))))

namespace StatsCall

variable (call : StatsCall)

def fieldJson (field : StatKind × String) : Json :=
  match field.1 with
  | .count => .object (countJson (call.stats.count field.2))
  | .counter => .number (call.stats.counter field.2).toInt

def fieldText (field : StatKind × String) : List Char :=
  match field.1 with
  | .count => inlineObject (countMembers (call.stats.count field.2))
  | .counter => lldText (call.stats.counter field.2)

def processValues : List (String × BitVec 64) :=
  let p := call.process
  [("elapsed_msecs", p.elapsed), ("user_msecs", p.userTime),
    ("system_msecs", p.sysTime), ("page_faults", p.pageFaults),
    ("rss_current", p.currentRss), ("rss_peak", p.peakRss),
    ("commit_current", p.currentCommit)]

def processJson : Json :=
  .object
    (call.processValues.map (fun v => ((cstr v.1).chars, .number v.2.toNat))
      ++ [((cstr "commit_peak").chars, .number call.process.peakCommit.toNat)])

def binsJson (bins : ℕ → StatCount) : Json :=
  .array
    ((List.range binHuge).map
        (fun i => .object (binJson (bins i) (queueBlockSize i)))
      ++ [.object (binJson (bins binHuge) (queueBlockSize binHuge))])

def json : Json :=
  .object
    ([((cstr "stat_version").chars, .number statVersion.toInt),
        ((cstr "palloc_version").chars, .number mallocVersion.toInt),
        ("process".toList, call.processJson)] ++
      (statFields.map (fun field =>
          ((cstr field.2).chars, call.fieldJson field)) ++
        [("malloc_bins".toList, binsJson call.stats.mallocBins),
          ("page_bins".toList, binsJson call.stats.pageBins)]))

def binLines (bins : ℕ → StatCount) : List Char :=
  (binMessages bins).flatMap Message.full

theorem binLines_json (bins : ℕ → StatCount) :
    JsonText (binsJson bins)
      ('[' :: '\n' :: (binLines bins ++ ([' ', ' '] ++ [']']))) := by
  have hindent : IsBlank [' ', ' ', ' ', ' '] := by decide
  have htext : ∀ i, JsonText
      (.object (binJson (bins i) (queueBlockSize i)))
      ([' ', ' ', ' ', ' '] ++
        inlineObject (binMembers (bins i) (queueBlockSize i))) :=
    fun i => (binText_json _ _).before hindent
  have hlines := ElementsText.lines (List.range binHuge) binHuge _ _ htext
  have heq : binLines bins = (List.range binHuge).flatMap (fun i =>
      [' ', ' ', ' ', ' '] ++
        inlineObject (binMembers (bins i) (queueBlockSize i)) ++
          [',', '\n']) ++
      ([' ', ' ', ' ', ' '] ++
        inlineObject (binMembers (bins binHuge) (queueBlockSize binHuge)) ++
          ['\n']) := by
    have hlead : (cstr "    ").chars = [' ', ' ', ' ', ' '] := by decide
    have hfirst : ∀ i ∈ List.range binHuge,
        (Message.countBin "    " (bins i) i (i ≠ binHuge)).full =
          [' ', ' ', ' ', ' '] ++
            inlineObject (binMembers (bins i) (queueBlockSize i)) ++
              [',', '\n'] := by
      intro i hi
      have hne : i ≠ binHuge := (List.mem_range.mp hi).ne
      simp [Message.full, Message.countBin, hne, commaText, hlead]
    unfold binLines binMessages
    rw [List.range_succ, List.map_append, List.flatMap_append,
      List.flatMap_map, List.flatMap_congr hfirst]
    simp [Message.full, Message.countBin, commaText, hlead]
  rw [heq]
  exact .arrayBlock (by decide) hlines

def processLines : List Char :=
  call.processValues.flatMap (fun v =>
      memberText [' ', ' ', ' ', ' '] (cstr v.1).chars (zuText v.2) ++
        [',', '\n']) ++
    (memberText [' ', ' ', ' ', ' '] (cstr "commit_peak").chars
      (zuText call.process.peakCommit) ++ ['\n'])

theorem processLines_json :
    JsonText call.processJson
      ('\x7b' :: '\n' :: (call.processLines ++ ([' ', ' '] ++ ['\x7d']))) := by
  have hnames : ∀ v ∈ call.processValues, IsName (cstr v.1).chars := by
    simp only [processValues, List.forall_mem_cons]
    decide +kernel
  have hlast := @MembersText.lastLine [' ', ' ', ' ', ' '] _ _ _
    (by decide) (show IsName (cstr "commit_peak").chars by decide)
    (zuText_json call.process.peakCommit)
  exact .block (by decide) (.lines (by decide) call.processValues _ _ _
    hnames (fun v _ => zuText_json v.2) hlast)

theorem processMessages_full :
    call.processMessages.flatMap Message.full =
      memberText [' ', ' '] "process".toList
        ('\x7b' :: '\n' :: (call.processLines ++ ([' ', ' '] ++ ['\x7d']))) ++
          [',', '\n'] := by
  have hopen : "  \"process\": \x7b\n".toList =
      memberText [' ', ' '] "process".toList ['\x7b', '\n'] := by
    decide
  have hclose : "  \x7d,\n".toList = [' ', ' ', '\x7d', ',', '\n'] := by
    decide
  simp [processMessages, Message.full, Message.size, processLines,
    processValues, commaText, memberText, hopen, hclose]

theorem fieldMessages_full (field : StatKind × String) :
    (call.fieldMessages field).flatMap Message.full =
      memberText [' ', ' '] (cstr field.2).chars (call.fieldText field) ++
        [',', '\n'] := by
  have hempty : (cstr "").chars = [] := by decide
  obtain ⟨kind, name⟩ := field
  cases kind with
  | count =>
    simp [fieldMessages, fieldText, Message.full, Message.countName,
      Message.count, memberText, commaText, hempty]
  | counter =>
    simp [fieldMessages, fieldText, Message.full, Message.value, memberText]

theorem fieldText_json (field : StatKind × String) :
    JsonText (call.fieldJson field) (call.fieldText field) := by
  obtain ⟨kind, name⟩ := field
  cases kind with
  | count => exact countText_json _
  | counter => exact lldText_json _

theorem statFields_names :
    ∀ field ∈ statFields, IsName (cstr field.2).chars := by
  decide +kernel

theorem document_json : JsonText call.json call.document := by
  have hindent : IsBlank [' ', ' '] := by decide
  have hpage := MembersText.lastLine hindent
    (show IsName "page_bins".toList by decide)
    (binLines_json call.stats.pageBins)
  have hmalloc := MembersText.line hindent
    (show IsName "malloc_bins".toList by decide)
    (binLines_json call.stats.mallocBins) hpage
  have hfields := MembersText.lines hindent statFields _ call.fieldText _
    statFields_names (fun field _ => call.fieldText_json field) hmalloc
  have hprocess := MembersText.line hindent
    (show IsName "process".toList by decide) call.processLines_json hfields
  have hversion := MembersText.line hindent
    (show IsName (cstr "palloc_version").chars by decide)
    (lldText_json mallocVersion) hprocess
  have hall := MembersText.line hindent
    (show IsName (cstr "stat_version").chars by decide)
    (lldText_json statVersion) hversion
  have hblock := (JsonText.block (show IsBlank [] by decide) hall).after
    (show IsBlank ['\n'] by decide)
  have hopen : "\x7b\n".toList = ['\x7b', '\n'] := by decide
  have hclose : "\x7d\n".toList = ['\x7d', '\n'] := by decide
  have hmallocOpen : "  \"malloc_bins\": [\n".toList =
      memberText [' ', ' '] "malloc_bins".toList ['[', '\n'] := by decide
  have hpageOpen : "  \"page_bins\": [\n".toList =
      memberText [' ', ' '] "page_bins".toList ['[', '\n'] := by decide
  have hbinsClose : "  ],\n".toList = [' ', ' ', ']', ',', '\n'] := by decide
  have hlastClose : "  ]\n".toList = [' ', ' ', ']', '\n'] := by decide
  have heq : call.document = '\x7b' :: '\n' ::
      (memberText [' ', ' '] (cstr "stat_version").chars
        (lldText statVersion) ++ [',', '\n'] ++
        (memberText [' ', ' '] (cstr "palloc_version").chars
          (lldText mallocVersion) ++ [',', '\n'] ++
          (call.processMessages.flatMap Message.full ++
            (statFields.flatMap (fun field =>
                (call.fieldMessages field).flatMap Message.full) ++
              (memberText [' ', ' '] "malloc_bins".toList ('[' :: '\n' ::
                (binLines call.stats.mallocBins ++ ([' ', ' '] ++ [']'])))
                ++ [',', '\n'] ++
              (memberText [' ', ' '] "page_bins".toList ('[' :: '\n' ::
                (binLines call.stats.pageBins ++ ([' ', ' '] ++ [']'])))
                ++ ['\n'])))))) ++ ['\x7d', '\n'] := by
    simp only [document, messages, List.flatMap_append, List.flatMap_cons,
      List.flatMap_nil, List.flatMap_assoc, Message.full, Message.value,
      hopen, hclose, hmallocOpen, hpageOpen, hbinsClose, hlastClose]
    simp [binLines, memberText]
  rw [heq]
  simp only [processMessages_full, fieldMessages_full]
  simpa [json] using hblock

/-! ## The whole call -/

/-- The returned buffer holds the whole document, which is JSON for the
record. -/
def ReturnsDocument (outputSize : ℕ) (outputBuf : Option (ℕ → Char)) :
    Prop :=
  ∀ h, call.getJson outputSize outputBuf = some h →
    HoldsString h.out.mem call.document ∧ JsonText call.json call.document

/-- The document has room in the buffer of the caller, or every growth of an
internal buffer that it needs succeeds. -/
def HasRoom (outputSize : ℕ) (outputBuf : Option (ℕ → Char)) : Prop :=
  if outputBuf.isSome ∧ 0 < outputSize then
    call.document.length < outputSize
  else
    ∀ i, call.grow.firstSize * 2 ^ i ≤ call.document.length →
      (call.grow.rezalloc (i + 1)).isSome = true

def NoBuffer (outputSize : ℕ) (outputBuf : Option (ℕ → Char)) : Prop :=
  ¬ (outputBuf.isSome ∧ 0 < outputSize) ∧ call.grow.rezalloc 0 = none

theorem messages_length : call.messages.length ≤ 256 := by
  have hfields : (statFields.flatMap call.fieldMessages).length = 46 := by
    simp [statFields, fieldMessages]
  simp only [messages, List.length_append, hfields]
  simp [processMessages, binMessages, binHuge]

theorem document_length_le (hfits : ∀ m ∈ call.messages, m.Fits) :
    call.document.length ≤ sizeMax / 2 := by
  have hsum : (call.messages.map fun m => m.full.length).sum ≤
      call.messages.length * 127 := by
    have hle := List.sum_le_card_nsmul
      (call.messages.map fun m => m.full.length) 127 (by
        intro n hn
        obtain ⟨m, hm, rfl⟩ := List.mem_map.mp hn
        exact hfits m hm)
    simpa using hle
  have hlen := call.messages_length
  have hmax : 256 * 127 ≤ sizeMax / 2 := by decide
  rw [document, List.length_flatMap]
  calc (call.messages.map fun m => m.full.length).sum
      ≤ call.messages.length * 127 := hsum
    _ ≤ 256 * 127 := Nat.mul_le_mul_right 127 hlen
    _ ≤ sizeMax / 2 := hmax

variable {call}

theorem getJson_eq {outputSize : ℕ} {outputBuf : Option (ℕ → Char)}
    {h : HeapBuf} (hstart : call.startBuf outputSize outputBuf = some h)
    (hused : h.out.pos < h.size) :
    call.getJson outputSize outputBuf =
      some (call.printMessages call.messages h) := by
  obtain ⟨m, messages, hcons⟩ : ∃ m messages,
      call.messages = m :: messages := ⟨_, _, rfl⟩
  have hprints := @printMessages_prints call h hused m messages
  rw [← hcons] at hprints
  unfold getJson
  rw [hstart, Option.bind_some, printAll_eq]
  exact if_neg (Nat.not_le.mpr hprints.used_lt)

/-- From an empty buffer the document is complete exactly when every message
fits and there is room. -/
theorem returnsDocument_of_start {outputSize : ℕ}
    {outputBuf : Option (ℕ → Char)} {h : HeapBuf}
    (hstart : call.startBuf outputSize outputBuf = some h)
    (hpos : h.out.pos = 0) (hsize : 0 < h.size)
    (hterminated : h.canRealloc = false → h.Terminated) :
    call.ReturnsDocument outputSize outputBuf ↔
      (∀ m ∈ call.messages, m.Fits) ∧
        h.Room call.grow call.document.length := by
  obtain ⟨m, messages, hcons⟩ : ∃ m messages,
      call.messages = m :: messages := ⟨_, _, rfl⟩
  have hempty : h.out.text = [] :=
    List.length_eq_zero_iff.mp ((text_length h.out).trans hpos)
  have hused : h.out.pos < h.size := by omega
  have hsound := call.messages_sound
  rw [hcons] at hsound
  have hiff :=
    @holdsString_iff call h hused hempty hterminated m messages hsound
  rw [← hcons] at hiff
  unfold ReturnsDocument
  rw [getJson_eq hstart hused]
  constructor
  · intro hreturns
    exact hiff.mp (hreturns _ rfl).1
  · intro hroom result hresult
    rw [← Option.some.inj hresult]
    exact ⟨hiff.mpr hroom, call.document_json⟩

theorem internalBuf_cases :
    (call.grow.rezalloc 0 = none ∧ call.internalBuf = none) ∨
      ∃ h, call.internalBuf = some h ∧
        (call.grow.rezalloc 0).isSome = true ∧ h.out.pos = 0 ∧
          h.size = call.grow.firstSize ∧ h.canRealloc = true ∧
            h.calls = 1 := by
  unfold internalBuf HeapBuf.expand HeapBuf.sealEnd
  simp only [lt_irrefl, if_false, Nat.not_lt_zero, Bool.true_eq_false,
    or_self]
  cases hcall : call.grow.rezalloc 0 with
  | none => exact Or.inl ⟨rfl, by simp⟩
  | some fresh => exact Or.inr ⟨_, rfl, rfl, rfl, by simp, rfl, rfl⟩

theorem room_fixed {h : HeapBuf} (hpos : h.out.pos = 0)
    (hfixed : h.canRealloc = false) (n : ℕ) :
    h.Room call.grow n ↔ n < h.size := by
  constructor
  · intro hroom
    by_contra hle
    have hfirst := hroom 0 (by omega)
    rw [hfixed] at hfirst
    cases hfirst.1
  · intro hlt i hi
    have hle := Nat.le_mul_of_pos_right h.size (Nat.two_pow_pos i)
    omega

theorem room_internal {h : HeapBuf} (hpos : h.out.pos = 0)
    (hrealloc : h.canRealloc = true) (hcalls : h.calls = 1) {n : ℕ}
    (hn : n ≤ sizeMax / 2) :
    h.Room call.grow n ↔ ∀ i, h.size * 2 ^ i ≤ n →
      (call.grow.rezalloc (i + 1)).isSome = true := by
  unfold HeapBuf.Room
  rw [hpos, hrealloc, hcalls]
  simp only [Nat.zero_add, true_and, Nat.add_comm 1]
  constructor
  · intro hroom i hi
    exact (hroom i hi).2
  · intro hgrow i hi
    exact ⟨hi.trans hn, hgrow i hi⟩

theorem startBuf_internal {outputSize : ℕ} {outputBuf : Option (ℕ → Char)}
    (hnone : ¬ (outputBuf.isSome ∧ 0 < outputSize)) :
    call.startBuf outputSize outputBuf = call.internalBuf := by
  cases outputBuf with
  | none => rfl
  | some mem =>
    have hsize : ¬ 0 < outputSize := fun hpos => hnone ⟨rfl, hpos⟩
    exact if_neg hsize

/-- The call does what it should exactly when it gets no internal buffer, or
every line fits in a line buffer and the document in the buffer. -/
theorem returnsDocument_iff (call : StatsCall) (outputSize : ℕ)
    (outputBuf : Option (ℕ → Char)) :
    call.ReturnsDocument outputSize outputBuf ↔
      call.NoBuffer outputSize outputBuf ∨
        (∀ m ∈ call.messages, m.full.length ≤ 127) ∧
          call.HasRoom outputSize outputBuf := by
  by_cases hfixed : outputBuf.isSome ∧ 0 < outputSize
  · obtain ⟨hsome, hsize⟩ := hfixed
    obtain ⟨mem, rfl⟩ := Option.isSome_iff_exists.mp hsome
    have hstart : call.startBuf outputSize (some mem) =
        some ⟨.init fun i => if i < outputSize then '\x00' else mem i,
          outputSize, false, 0⟩ := if_pos hsize
    rw [returnsDocument_of_start hstart rfl hsize fun _ => if_pos hsize,
      room_fixed rfl rfl]
    simp [NoBuffer, HasRoom, Message.Fits, hsize]
  · have hstart := @startBuf_internal call _ _ hfixed
    rcases @internalBuf_cases call with
      ⟨hnone, hbuf⟩ | ⟨h, hbuf, hsome, hpos, hsize, hrealloc, hcalls⟩
    · refine iff_of_true ?_ (Or.inl ⟨hfixed, hnone⟩)
      intro h hget
      rw [getJson, hstart, hbuf] at hget
      cases hget
    · have hno : ¬ call.NoBuffer outputSize outputBuf := by
        rintro ⟨_, hnone⟩
        rw [hnone] at hsome
        cases hsome
      have hfirst := call.grow.firstSize_pos.1
      rw [returnsDocument_of_start (hstart.trans hbuf) hpos (by omega)
        fun hfalse => absurd (hrealloc.symm.trans hfalse) (by decide)]
      simp only [hno, false_or, HasRoom, if_neg hfixed]
      refine and_congr_right fun hfits => ?_
      rw [room_internal hpos hrealloc hcalls (call.document_length_le hfits),
        hsize]

end StatsCall

def idleCall : StatsCall where
  stack := fun _ => '\x00'
  grow := ⟨⟨false, false, false⟩, fun _ => none⟩
  process := ⟨0, 0, 0, 0, 0, 0, 0, 0⟩
  stats :=
    { count := fun _ => ⟨0, 0, 0⟩
      counter := fun _ => 0
      mallocBins := fun _ => ⟨0, 0, 0⟩
      pageBins := fun _ => ⟨0, 0, 0⟩ }

/-- A buffer of two characters is returned with one of the document in it. -/
theorem json_truncated :
    (idleCall.getJson 2 (some fun _ => '\x00')).isSome = true ∧
      ¬ idleCall.ReturnsDocument 2 (some fun _ => '\x00') := by
  have hstart : idleCall.startBuf 2 (some fun _ => '\x00') =
      some ⟨.init fun _ => '\x00', 2, false, 0⟩ := by
    simp [StatsCall.startBuf]
  constructor
  · rw [StatsCall.getJson_eq hstart (by decide)]
    rfl
  · rw [StatsCall.returnsDocument_of_start hstart rfl (by decide)
      fun _ => rfl, StatsCall.room_fixed rfl rfl]
    rintro ⟨_, hlt⟩
    obtain ⟨rest, hcons⟩ : ∃ rest, idleCall.messages =
        .literal "\x7b\n".toList :: rest := ⟨_, rfl⟩
    have hlen : "\x7b\n".toList.length = 2 := by decide
    rw [StatsCall.document, hcons, List.flatMap_cons, List.length_append,
      Message.full, hlen] at hlt
    have hsize : 2 + (rest.flatMap Message.full).length < 2 := hlt
    omega

end Palloc
