import Palloc.OptionParse
import Palloc.OutputBuffer

/-!
# The formatter

`_pa_vsnprintf` reads a format and a list of arguments, and writes into a
buffer.  A format is a C string, read one character at a time; at its end the
loop is left, also in the middle of a conversion.  The numbers are those of a
platform with 64-bit pointers and `long`, and with 32-bit `int`.
-/

namespace Palloc

open MachineWord

inductive FormatArg where
  | word (x : BitVec 64)
  | string (s : Option CString)

/-- `va_arg` of a number.  A list that matches its format has one here. -/
def nextWord : List FormatArg → BitVec 64 × List FormatArg
  | .word x :: args => (x, args)
  | args => (0, args)

/-- `va_arg` of a string, as its characters; `NULL` writes none. -/
def nextString : List FormatArg → List Char × List FormatArg
  | .string (some s) :: args => (s.chars, args)
  | .string none :: args => ([], args)
  | args => ([], args)

/-! ## Conversions -/

structure Conversion where
  numplus : Option Char
  alignright : Bool
  fill : Char
  width : ℕ
  numtype : Char
  char : Char

/-- `PA_NEXTC`. -/
def nextc : List Char → Option (Char × List Char)
  | [] => none
  | c :: rest => some (c, rest)

/-- A value for the character that was just read, and the next one. -/
def readFlag {α : Type} (value : α) (rest : List Char) :
    Option (α × Char × List Char) :=
  (nextc rest).map fun next => (value, next.1, next.2)

def readNumplus (c : Char) (rest : List Char) :
    Option (Option Char × Char × List Char) :=
  if c = '+' ∨ c = ' ' then readFlag (some c) rest else some (none, c, rest)

def readAlignright (c : Char) (rest : List Char) :
    Option (Bool × Char × List Char) :=
  if c = '-' then readFlag false rest else some (true, c, rest)

def readFill (c : Char) (rest : List Char) :
    Option (Char × Char × List Char) :=
  if c = '0' then readFlag '0' rest else some (' ', c, rest)

def widthLoop (width : ℕ) (c : Char) (rest : List Char) :
    Option (ℕ × Char × List Char) :=
  if '0' ≤ c ∧ c ≤ '9' then
    match rest with
    | [] => none
    | d :: rest =>
      widthLoop ((10 * width + (c.toNat - '0'.toNat)) % wordSize) d rest
  else some (width, c, rest)

def readWidth (c : Char) (rest : List Char) :
    Option (ℕ × Char × List Char) :=
  if '1' ≤ c ∧ c ≤ '9' then
    (nextc rest).bind fun next =>
      widthLoop (c.toNat - '0'.toNat) next.1 next.2
  else some (0, c, rest)

def readNumtype (c : Char) (rest : List Char) :
    Option (Char × Char × List Char) :=
  if c = 'z' ∨ c = 't' ∨ c = 'L' then readFlag c rest
  else if c = 'l' then
    (nextc rest).bind fun next =>
      if next.1 = 'l' then readFlag 'L' next.2
      else some ('l', next.1, next.2)
  else some ('d', c, rest)

/-- The conversion after a `%`, or nothing when the format ends in it. -/
def readConversion (rest : List Char) : Option (Conversion × List Char) := do
  let (c, rest) ← nextc rest
  let (numplus, c, rest) ← readNumplus c rest
  let (alignright, c, rest) ← readAlignright c rest
  let (fill, c, rest) ← readFill c rest
  let (width, c, rest) ← readWidth c rest
  let (numtype, c, rest) ← readNumtype c rest
  return (⟨numplus, alignright, fill, width, numtype, c⟩, rest)

/-! ## Output of a conversion -/

/-- A field after its text was written: where the text starts, and the width
and the fill for it. -/
structure Field where
  out : Output
  start : ℕ
  width : ℕ
  fill : Char

def isLong (numtype : Char) : Bool :=
  numtype = 'z' || numtype = 't' || numtype = 'L' || numtype = 'l'

def unsignedValue (numtype : Char) (x : BitVec 64) : ℕ :=
  if isLong numtype then x.toNat else (x.setWidth 32).toNat

def signedValue (numtype : Char) (x : BitVec 64) : ℤ :=
  if isLong numtype then x.toInt else (x.setWidth 32).toInt

/-- `UINT32_MAX`. -/
def uint32Max : ℕ := 2 ^ 32 - 1

/-- The width and the fill of `x` and `p`, which have a width always. -/
def hexWidth (conv : Conversion) (width x : ℕ) : ℕ × Char :=
  if width = 0 ∧ (conv.char = 'x' ∨ conv.char = 'p') then
    (if conv.char = 'p' then
        2 * (if x ≤ uint32Max then 4
          else if x / 2 ^ 16 ≤ uint32Max then 6 else 8)
      else 2, '0')
  else (width, conv.fill)

/-- The conversions `p`, `x` and `u`. -/
def outUnsigned (stop : ℕ) (conv : Conversion) (x : ℕ) (o : Output) :
    Field :=
  let o := if conv.char = 'p' then outs stop ['0', 'x'] o else o
  let width :=
    if conv.char = 'p' then (if 2 ≤ conv.width then conv.width - 2 else 0)
    else conv.width
  let base := if conv.char = 'x' ∨ conv.char = 'p' then 16 else 10
  { out := outNum stop x base conv.numplus o
    start := o.pos
    width := (hexWidth conv width x).1
    fill := (hexWidth conv width x).2 }

/-- `INTMAX_MIN`. -/
def intmaxMin : ℤ := - 2 ^ 63

/-- The sign and the magnitude of a number, as they are given to
`pa_out_num`. -/
def signOf (numplus : Option Char) (x : ℤ) : Option Char × ℕ :=
  let sign := if x < 0 then some '-' else numplus
  let x := if x < 0 ∧ intmaxMin < x then - x else x
  (sign, (x % wordSize).toNat)

/-- The conversions `i` and `d`. -/
def outSigned (stop : ℕ) (conv : Conversion) (x : ℤ) (o : Output) : Field :=
  { out := outNum stop (signOf conv.numplus x).2 10
      (signOf conv.numplus x).1 o
    start := o.pos
    width := conv.width
    fill := conv.fill }

def isVisible (c : Char) : Bool := ' ' ≤ c && c ≤ '~'

def outConversion (stop : ℕ) (conv : Conversion) (args : List FormatArg)
    (o : Output) : Field × List FormatArg :=
  if conv.char = 's' then
    (⟨outs stop (nextString args).1 o, o.pos, conv.width, conv.fill⟩,
      (nextString args).2)
  else if conv.char = 'p' ∨ conv.char = 'x' ∨ conv.char = 'u' then
    let numtype := if conv.char = 'p' then 'z' else conv.numtype
    (outUnsigned stop conv (unsignedValue numtype (nextWord args).1) o,
      (nextWord args).2)
  else if conv.char = 'i' ∨ conv.char = 'd' then
    (outSigned stop conv (signedValue conv.numtype (nextWord args).1) o,
      (nextWord args).2)
  else if isVisible conv.char then
    (⟨outc stop conv.char (outc stop '%' o), o.pos, conv.width, conv.fill⟩,
      args)
  else (⟨o, o.pos, conv.width, conv.fill⟩, args)

def fillAlign (stop : ℕ) (alignright : Bool) (field : Field) : Output :=
  let len := field.out.pos - field.start
  if len < field.width then
    let extra := field.width - len
    let o := outFill stop field.fill extra field.out
    if alignright = true ∧ o.pos ≤ stop then
      outAlignright stop field.fill field.start len extra o
    else o
  else field.out

/-! ## The loop over the format -/

/-- Visible characters and some control characters are written as they
are. -/
def isLiteral (c : Char) : Bool :=
  isVisible c || c = '\n' || c = '\r' || c = '\t'

def outLiteral (stop : ℕ) (c : Char) (o : Output) : Output :=
  if isLiteral c then outc stop c o else o

theorem readFlag_length {α : Type} {value result : α} {c : Char}
    {rest after : List Char}
    (hread : readFlag value rest = some (result, c, after)) :
    after.length ≤ rest.length := by
  cases rest with
  | nil => cases hread
  | cons d rest =>
    simp only [readFlag, nextc, Option.map_some, Option.some.injEq,
      Prod.mk.injEq] at hread
    rw [← hread.2.2]
    exact Nat.le_succ _

theorem readNumplus_spec {c d : Char} {rest after : List Char}
    {numplus : Option Char}
    (hread : readNumplus c rest = some (numplus, d, after)) :
    after.length ≤ rest.length ∧ numplus ≠ some '\x00' := by
  unfold readNumplus at hread
  split at hread
  · next hsign =>
    refine ⟨readFlag_length hread, ?_⟩
    cases rest with
    | nil => cases hread
    | cons e rest =>
      cases hread
      rcases hsign with rfl | rfl <;> decide
  · cases hread
    exact ⟨le_rfl, by decide⟩

theorem readAlignright_length {c d : Char} {rest after : List Char}
    {alignright : Bool}
    (hread : readAlignright c rest = some (alignright, d, after)) :
    after.length ≤ rest.length := by
  unfold readAlignright at hread
  split at hread
  · exact readFlag_length hread
  · cases hread
    rfl

theorem readFill_spec {c d fill : Char} {rest after : List Char}
    (hread : readFill c rest = some (fill, d, after)) :
    after.length ≤ rest.length ∧ (fill = ' ' ∨ fill = '0') := by
  unfold readFill at hread
  split at hread
  · refine ⟨readFlag_length hread, ?_⟩
    cases rest with
    | nil => cases hread
    | cons e rest =>
      cases hread
      exact Or.inr rfl
  · cases hread
    exact ⟨le_rfl, Or.inl rfl⟩

theorem widthLoop_length {width result : ℕ} {c d : Char}
    {rest after : List Char}
    (hread : widthLoop width c rest = some (result, d, after)) :
    after.length ≤ rest.length := by
  induction rest generalizing width c with
  | nil =>
    unfold widthLoop at hread
    split at hread
    · cases hread
    · cases hread
      rfl
  | cons e rest ih =>
    unfold widthLoop at hread
    split at hread
    · exact (ih hread).trans (Nat.le_succ _)
    · cases hread
      rfl

theorem readWidth_length {width : ℕ} {c d : Char} {rest after : List Char}
    (hread : readWidth c rest = some (width, d, after)) :
    after.length ≤ rest.length := by
  unfold readWidth at hread
  split at hread
  · cases rest with
    | nil => cases hread
    | cons e rest => exact (widthLoop_length hread).trans (Nat.le_succ _)
  · cases hread
    rfl

theorem readNumtype_length {numtype c d : Char} {rest after : List Char}
    (hread : readNumtype c rest = some (numtype, d, after)) :
    after.length ≤ rest.length := by
  unfold readNumtype at hread
  split at hread
  · exact readFlag_length hread
  · split at hread
    · cases rest with
      | nil => cases hread
      | cons e rest =>
        simp only [nextc, Option.bind_some] at hread
        split at hread
        · exact (readFlag_length hread).trans (Nat.le_succ _)
        · cases hread
          exact Nat.le_succ _
    · cases hread
      rfl

/-- A conversion takes at least one character, and neither its sign nor its
fill is a terminator. -/
theorem readConversion_spec {rest after : List Char} {conv : Conversion}
    (hread : readConversion rest = some (conv, after)) :
    after.length < rest.length ∧ conv.numplus ≠ some '\x00' ∧
      (conv.fill = ' ' ∨ conv.fill = '0') := by
  cases rest with
  | nil => cases hread
  | cons c rest =>
    simp only [readConversion, nextc, Option.bind_eq_bind, Option.bind_some,
      Option.bind_eq_some_iff] at hread
    obtain ⟨⟨numplus, c1, r1⟩, h1, ⟨alignright, c2, r2⟩, h2, ⟨fill, c3, r3⟩,
      h3, ⟨width, c4, r4⟩, h4, ⟨numtype, c5, r5⟩, h5, hconv⟩ := hread
    dsimp only at h2 h3 h4 h5
    cases hconv
    obtain ⟨hlen1, hsign⟩ := readNumplus_spec h1
    obtain ⟨hlen3, hfill⟩ := readFill_spec h3
    have hlen2 := readAlignright_length h2
    have hlen4 := readWidth_length h4
    have hlen5 := readNumtype_length h5
    refine ⟨?_, hsign, hfill⟩
    rw [List.length_cons]
    dsimp only
    omega

/-- The loop of `_pa_vsnprintf`. -/
def vsnprintfLoop (stop : ℕ) (fmt : List Char) (args : List FormatArg)
    (o : Output) : Output :=
  if stop ≤ o.pos then o
  else
    match fmt with
    | [] => o
    | c :: rest =>
      if c ≠ '%' then vsnprintfLoop stop rest args (outLiteral stop c o)
      else
        match _hread : readConversion rest with
        | none => o
        | some (conv, after) =>
          let field := outConversion stop conv args o
          vsnprintfLoop stop after field.2
            (fillAlign stop conv.alignright field.1)
termination_by fmt.length
decreasing_by
  · simp
  · have hlen := (readConversion_spec _hread).1
    simp only [List.length_cons]
    omega

/-- A number as an `int`. -/
def toInt32 (n : ℕ) : ℤ := (BitVec.ofNat 32 n).toInt

/-- The memory of a buffer before anything is written. -/
def Output.init (mem : ℕ → Char) : Output := ⟨mem, [], 0⟩

/-- The loop on a buffer whose last character is set first. -/
def printed (mem : ℕ → Char) (stop : ℕ) (fmt : List Char)
    (args : List FormatArg) : Output :=
  vsnprintfLoop stop fmt args ((Output.init mem).store stop '\x00')

/-- `_pa_vsnprintf`: what it returns, and the memory behind the buffer. -/
def vsnprintf (buf : Option (ℕ → Char)) (bufsize : ℕ) (fmt : Option CString)
    (args : List FormatArg) : ℤ × Option Output :=
  match buf, fmt with
  | some mem, some fmt =>
    if bufsize = 0 then (0, some (.init mem))
    else
      let stop := bufsize - 1
      let o := printed mem stop fmt.chars args
      (toInt32 o.pos, some (o.store o.pos '\x00'))
  | buf, _ => (0, buf.map .init)

/-! ## Steps of the loop -/

theorem vsnprintfLoop_full {stop : ℕ} {o : Output} (fmt : List Char)
    (args : List FormatArg) (hpos : stop ≤ o.pos) :
    vsnprintfLoop stop fmt args o = o := by
  rw [vsnprintfLoop.eq_def, if_pos hpos]

theorem vsnprintfLoop_nil (stop : ℕ) (args : List FormatArg) (o : Output) :
    vsnprintfLoop stop [] args o = o := by
  rw [vsnprintfLoop.eq_def]
  split <;> rfl

theorem vsnprintfLoop_literal {stop : ℕ} {o : Output} (hpos : o.pos < stop)
    {c : Char} (hc : c ≠ '%') (rest : List Char) (args : List FormatArg) :
    vsnprintfLoop stop (c :: rest) args o =
      vsnprintfLoop stop rest args (outLiteral stop c o) := by
  rw [vsnprintfLoop.eq_def, if_neg (Nat.not_le.mpr hpos)]
  simp only [if_pos hc]

theorem vsnprintfLoop_end {rest : List Char}
    (hread : readConversion rest = none) (stop : ℕ) (args : List FormatArg)
    (o : Output) : vsnprintfLoop stop ('%' :: rest) args o = o := by
  rw [vsnprintfLoop.eq_def]
  split
  · rfl
  · simp only [ne_eq, not_true_eq_false, if_false]
    split
    · rfl
    · next hsome => simp [hread] at hsome

theorem vsnprintfLoop_conversion {stop : ℕ} {o : Output}
    (hpos : o.pos < stop) {rest after : List Char} {conv : Conversion}
    (hread : readConversion rest = some (conv, after))
    (args : List FormatArg) :
    vsnprintfLoop stop ('%' :: rest) args o =
      vsnprintfLoop stop after (outConversion stop conv args o).2
        (fillAlign stop conv.alignright (outConversion stop conv args o).1) := by
  rw [vsnprintfLoop.eq_def, if_neg (Nat.not_le.mpr hpos)]
  simp only [ne_eq, not_true_eq_false, if_false]
  split
  · next hnone => simp [hread] at hnone
  · next hsome =>
    cases hread.symm.trans hsome
    rfl

/-- A property that every step keeps holds after the loop. -/
theorem vsnprintfLoop_induction {stop : ℕ} {property : Output → Prop}
    (hliteral : ∀ o c, o.pos < stop → property o →
      property (outLiteral stop c o))
    (hconversion : ∀ o args rest after conv,
      readConversion rest = some (conv, after) → o.pos < stop → property o →
        property (fillAlign stop conv.alignright
          (outConversion stop conv args o).1))
    (fmt : List Char) (args : List FormatArg) {o : Output}
    (ho : property o) : property (vsnprintfLoop stop fmt args o) := by
  induction hlen : fmt.length using Nat.strong_induction_on
    generalizing fmt args o with
  | _ n ih =>
    subst hlen
    rcases Nat.lt_or_ge o.pos stop with hpos | hpos
    · cases fmt with
      | nil =>
        rw [vsnprintfLoop_nil]
        exact ho
      | cons c rest =>
        by_cases hc : c = '%'
        · subst hc
          cases hread : readConversion rest with
          | none =>
            rw [vsnprintfLoop_end hread]
            exact ho
          | some result =>
            obtain ⟨conv, after⟩ := result
            rw [vsnprintfLoop_conversion hpos hread]
            have hlt := (readConversion_spec hread).1
            exact ih after.length (Nat.lt_succ_of_lt hlt) after _
              (hconversion o args rest after conv hread hpos ho) rfl
        · rw [vsnprintfLoop_literal hpos hc]
          exact ih rest.length (Nat.lt_succ_self _) rest args
            (hliteral o c hpos ho) rfl
    · rw [vsnprintfLoop_full fmt args hpos]
      exact ho

/-! ## Bounds -/

theorem le_outUnsigned_pos (stop : ℕ) (conv : Conversion) (x : ℕ)
    (o : Output) :
    (outUnsigned stop conv x o).start ≤ (outUnsigned stop conv x o).out.pos :=
  le_outNum_pos stop x _ conv.numplus _

theorem le_outConversion_pos (stop : ℕ) (conv : Conversion)
    (args : List FormatArg) (o : Output) :
    (outConversion stop conv args o).1.start ≤
      (outConversion stop conv args o).1.out.pos := by
  unfold outConversion
  split
  · exact le_outs_pos stop _ o
  · split
    · exact le_outUnsigned_pos stop conv _ o
    · split
      · exact le_outNum_pos stop _ 10 _ o
      · split
        · exact (le_outc_pos stop '%' o).trans (le_outc_pos stop _ _)
        · rfl

theorem nextString_noNul (args : List FormatArg) :
    '\x00' ∉ (nextString args).1 := by
  unfold nextString
  split
  · next s _ => exact s.noNul
  · exact List.not_mem_nil
  · exact List.not_mem_nil

theorem signOf_ne_nul {numplus : Option Char} (hsign : numplus ≠ some '\x00')
    (x : ℤ) : (signOf numplus x).1 ≠ some '\x00' := by
  unfold signOf
  dsimp only
  split
  · decide
  · exact hsign

theorem ne_nul_of_isLiteral {c : Char} (hc : isLiteral c = true) :
    c ≠ '\x00' := by
  rintro rfl
  exact absurd hc (by decide)

variable {mem : ℕ → Char} {stop : ℕ} {o : Output}

theorem Output.Within.outConversion (hwithin : o.Within mem stop)
    {conv : Conversion} (hsign : conv.numplus ≠ some '\x00')
    (args : List FormatArg) :
    (outConversion stop conv args o).1.out.Within mem stop := by
  unfold Palloc.outConversion
  split
  · exact hwithin.outs (nextString_noNul args)
  · split
    · unfold outUnsigned
      dsimp only
      split
      · exact (hwithin.outs (by decide)).outNum hsign _ _
      · exact hwithin.outNum hsign _ _
    · split
      · exact hwithin.outNum (signOf_ne_nul hsign _) _ _
      · split
        · next hvisible =>
          have hliteral : isLiteral conv.char = true := by
            simp [isLiteral, hvisible]
          exact (hwithin.outc (by decide)).outc
            (ne_nul_of_isLiteral hliteral)
        · exact hwithin

theorem hexWidth_fill (conv : Conversion) (width x : ℕ) :
    (hexWidth conv width x).2 = '0' ∨
      (hexWidth conv width x).2 = conv.fill := by
  unfold hexWidth
  split
  · exact Or.inl rfl
  · exact Or.inr rfl

theorem outConversion_fill (conv : Conversion) (args : List FormatArg) :
    (outConversion stop conv args o).1.fill = '0' ∨
      (outConversion stop conv args o).1.fill = conv.fill := by
  unfold outConversion
  split
  · exact Or.inr rfl
  · split
    · exact hexWidth_fill conv _ _
    · split
      · exact Or.inr rfl
      · split
        · exact Or.inr rfl
        · exact Or.inr rfl

theorem le_outFill_pos (fill : Char) (len : ℕ) (o : Output) :
    o.pos ≤ (outFill stop fill len o).pos := by
  induction len generalizing o with
  | zero => rfl
  | succ len ih =>
    rw [outFill]
    split
    · exact (Nat.le_succ _).trans (ih (o.put fill))
    · rfl

theorem Output.Within.fillAlign {field : Field}
    (hwithin : field.out.Within mem stop) (hfill : field.fill ≠ '\x00')
    (hstart : field.start ≤ field.out.pos) (alignright : Bool) :
    (fillAlign stop alignright field).Within mem stop := by
  unfold Palloc.fillAlign
  dsimp only
  split
  · have hout := hwithin.outFill hfill
      (field.width - (field.out.pos - field.start))
    split
    · refine hout.outAlignright hfill _ ?_
      have hle := @le_outFill_pos stop field.fill
        (field.width - (field.out.pos - field.start)) field.out
      omega
    · exact hout
  · exact hwithin

theorem Output.Within.vsnprintfLoop (hwithin : o.Within mem stop)
    (fmt : List Char) (args : List FormatArg) :
    (vsnprintfLoop stop fmt args o).Within mem stop := by
  refine @vsnprintfLoop_induction stop (Output.Within mem stop) ?_ ?_ fmt
    args o hwithin
  · intro o c _ ho
    unfold outLiteral
    split
    · next hliteral => exact ho.outc (ne_nul_of_isLiteral hliteral)
    · exact ho
  · intro o args rest after conv hread _ ho
    obtain ⟨_, hsign, hfill⟩ := readConversion_spec hread
    refine (ho.outConversion hsign args).fillAlign ?_
      (le_outConversion_pos stop conv args o) conv.alignright
    rcases outConversion_fill conv args with heq | heq
    · rw [heq]
      decide
    · rw [heq]
      rcases hfill with heq | heq <;> rw [heq] <;> decide

/-! ## The whole call -/

/-- The memory has a string of the given length at its start. -/
def IsString (mem : ℕ → Char) (len : ℕ) : Prop :=
  mem len = '\x00' ∧ ∀ i < len, mem i ≠ '\x00'

/-- A call on a buffer of the given size writes only in the buffer and leaves
a string in it, for whose length it returns the given value. -/
def PrintfSafe (mem : ℕ → Char) (bufsize : ℕ) (fmt : CString)
    (args : List FormatArg) (returned : ℕ → ℤ) : Prop :=
  ∃ result o, vsnprintf (some mem) bufsize (some fmt) args =
      (result, some o) ∧
    (∀ i ∈ o.written, i < bufsize) ∧
    (∀ i, i ∉ o.written → o.mem i = mem i) ∧
    (0 < bufsize → ∃ len < bufsize,
      IsString o.mem len ∧ result = returned len)

theorem vsnprintf_eq {bufsize : ℕ} (hsize : 0 < bufsize) (mem : ℕ → Char)
    (fmt : CString) (args : List FormatArg) :
    vsnprintf (some mem) bufsize (some fmt) args =
      (toInt32 (printed mem (bufsize - 1) fmt.chars args).pos,
        some ((printed mem (bufsize - 1) fmt.chars args).store
          (printed mem (bufsize - 1) fmt.chars args).pos '\x00')) := by
  rw [vsnprintf, if_neg (by omega)]

theorem printed_within (mem : ℕ → Char) (stop : ℕ) (fmt : List Char)
    (args : List FormatArg) :
    (printed mem stop fmt args).Within mem stop := by
  have hinit : (Output.init mem).Within mem stop := by
    refine ⟨Nat.zero_le _, ?_, ?_, fun _ _ => rfl⟩
    · intro i hi
      exact absurd hi List.not_mem_nil
    · intro i hi
      exact absurd hi (Nat.not_lt_zero i)
  exact (hinit.store le_rfl fun hlt => absurd hlt
    (Nat.not_lt_zero _)).vsnprintfLoop fmt args

theorem Output.Within.isString (hwithin : o.Within mem stop) :
    IsString (o.store o.pos '\x00').mem o.pos := by
  refine ⟨by simp [Output.store], ?_⟩
  intro i hi
  simpa [Output.store, hi.ne] using hwithin.noNul i hi

theorem toInt32_of_lt {n : ℕ} (hn : n < 2 ^ 31) : toInt32 n = n := by
  unfold toInt32
  rw [BitVec.toInt_ofNat', Int.bmod_def]
  omega

/-- The formatter stays in its buffer, and returns the length of the string
in it as an `int`. -/
theorem printf_safe (mem : ℕ → Char) (bufsize : ℕ) (fmt : CString)
    (args : List FormatArg) :
    PrintfSafe mem bufsize fmt args toInt32 ∧
      (bufsize ≤ 2 ^ 31 → PrintfSafe mem bufsize fmt args fun len => len) := by
  rcases Nat.eq_zero_or_pos bufsize with rfl | hsize
  · have hempty : ∀ returned : ℕ → ℤ, PrintfSafe mem 0 fmt args returned :=
      fun _ => ⟨0, .init mem, rfl, fun i hi => absurd hi List.not_mem_nil,
        fun _ _ => rfl, fun hpos => absurd hpos (lt_irrefl 0)⟩
    exact ⟨hempty _, fun _ => hempty _⟩
  · have hwithin := printed_within mem (bufsize - 1) fmt.chars args
    have hle := hwithin.pos_le
    have hlast := @Output.Within.store _ _ _ hwithin _ '\x00' hle
      fun hlt => absurd hlt (lt_irrefl _)
    have hbounds := hlast.written_le
    constructor
    · exact ⟨_, _, vsnprintf_eq hsize mem fmt args,
        fun i hi => by have := hbounds i hi; omega, hlast.frame,
        fun _ => ⟨_, by omega, hwithin.isString, rfl⟩⟩
    · intro hint
      exact ⟨_, _, vsnprintf_eq hsize mem fmt args,
        fun i hi => by have := hbounds i hi; omega, hlast.frame,
        fun _ => ⟨_, by omega, hwithin.isString,
          toInt32_of_lt (by omega)⟩⟩

/-! ## A long string -/

theorem outs_pos (s : List Char) (o : Output) :
    (outs stop s o).pos = o.pos + min s.length (stop - o.pos) := by
  induction s generalizing o with
  | nil => simp [outs]
  | cons c s ih =>
    rw [outs]
    split
    · rw [ih, put_pos, List.length_cons]
      omega
    · omega

theorem printed_string_pos (s : CString) (hstop : s.chars.length ≤ stop)
    (hpos : 0 < stop) :
    (printed mem stop ['%', 's'] [.string (some s)]).pos =
      s.chars.length := by
  have hread : readConversion ['s'] =
      some (⟨none, true, ' ', 0, 'd', 's'⟩, []) := rfl
  have hfield : ∀ o : Output,
      fillAlign stop true ⟨outs stop s.chars o, o.pos, 0, ' '⟩ =
        outs stop s.chars o := fun _ => rfl
  unfold printed
  rw [vsnprintfLoop_conversion hpos hread, vsnprintfLoop_nil]
  simp only [outConversion, if_true, nextString, hfield]
  rw [outs_pos, store_pos]
  simp only [Output.init]
  omega

/-- The letter `a`, the given number of times. -/
def repeated (n : ℕ) : CString where
  chars := List.replicate n 'a'
  noNul := fun hmem => absurd (List.eq_of_mem_replicate hmem) (by decide)

/-- A string of `2^31` characters: the result is negative. -/
theorem printf_long_string :
    ¬ PrintfSafe (fun _ => '\x00') (2 ^ 31 + 1) ⟨['%', 's'], by decide⟩
      [.string (some (repeated (2 ^ 31)))] fun len => len := by
  rintro ⟨result, o, heq, _, _, hstring⟩
  obtain ⟨len, _, _, hresult⟩ := hstring (by omega)
  rw [vsnprintf_eq (by omega)] at heq
  have hfst := congrArg Prod.fst heq
  have hlength : (repeated (2 ^ 31)).chars.length = 2 ^ 31 :=
    List.length_replicate
  dsimp only at hfst
  rw [printed_string_pos _ (by omega) (by omega), hlength] at hfst
  have hnegative : toInt32 (2 ^ 31) = - 2 ^ 31 := by decide
  have hlen : result = (len : ℤ) := hresult
  omega

end Palloc