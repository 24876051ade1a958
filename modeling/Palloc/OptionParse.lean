import Palloc.AlignedAllocation
import Mathlib.Data.List.Infix
import Mathlib.Data.Nat.Digits.Defs

/-!
# Options from the environment

`pa_option_init` reads an environment string, turns it into upper case, and
looks whether it occurs in a list of words for on or in one for off; if not,
it is read as a number.  For an option in KiB a unit may follow the number.
-/

namespace Palloc

open MachineWord

structure CString where
  chars : List Char
  noNul : '\x00' ∉ chars

/-! ## The C library -/

/-- `_pa_toupper`. -/
def toupper (c : Char) : Char :=
  if 'a' ≤ c ∧ c ≤ 'z' then Char.ofNat (c.toNat - 'a'.toNat + 'A'.toNat)
  else c

/-- `strstr`: the rest of the text from the first occurrence on. -/
def strstr (needle : List Char) : List Char → Option (List Char)
  | [] => if needle.isPrefixOf [] then some [] else none
  | c :: text =>
    if needle.isPrefixOf (c :: text) then some (c :: text)
    else strstr needle text

/-- `isspace`. -/
def isSpace (c : Char) : Bool :=
  c = ' ' || c = '\t' || c = '\n' || c = '\x0b' || c = '\x0c' || c = '\r'

/-- `LONG_MAX`; `LONG_MIN` is `- longMax - 1`. -/
def longMax : ℤ := 2 ^ 63 - 1

def decimal (digits : List Char) : ℕ :=
  digits.foldl (fun n c => 10 * n + (c.toNat - '0'.toNat)) 0

def takeSign : List Char → Bool × List Char
  | '-' :: text => (true, text)
  | '+' :: text => (false, text)
  | text => (false, text)

/-- `strtol` with base 10: the value, limited to a `long`, and the text from
the first character that is not read.  Nothing is read without a digit. -/
def strtol (text : List Char) : ℤ × List Char :=
  let (negative, rest) := takeSign (text.dropWhile isSpace)
  let digits := rest.takeWhile Char.isDigit
  if digits = [] then (0, text)
  else
    let value : ℤ :=
      if negative then - (decimal digits : ℤ) else decimal digits
    (max (- longMax - 1) (min longMax value), rest.dropWhile Char.isDigit)

/-- `pa_mul_overflow`: the product of two words and whether it wrapped. -/
def mulOverflow (count size : ℕ) : ℕ × Bool :=
  (count * size % wordSize, decide (wordSize ≤ count * size))

/-! ## The option -/

/-- `pa_init_t`. -/
inductive OptionInit where
  | uninit
  | defaulted
  | initialized
  deriving DecidableEq

structure OptionDesc where
  name : List Char
  legacyName : Option (List Char)
  sizeInKib : Bool
  value : ℤ
  init : OptionInit

/-- `PA_KiB`. -/
def kib : ℕ := 1024

/-- The words that turn an option on and off, as `strstr` gets them. -/
def onList : List Char := "1;TRUE;YES;ON".toList
def offList : List Char := "0;FALSE;NO;OFF".toList

/-- The size in KiB that a number and a unit give, whether it wrapped, and the
text after the unit. -/
def kibOfUnit (size : ℕ) : List Char → ℕ × Bool × List Char
  | 'K' :: rest => (size, false, rest)
  | 'M' :: rest =>
    ((mulOverflow size kib).1, (mulOverflow size kib).2, rest)
  | 'G' :: rest =>
    ((mulOverflow size (kib * kib)).1, (mulOverflow size (kib * kib)).2, rest)
  | 'T' :: rest =>
    ((mulOverflow size (kib * kib * kib)).1,
      (mulOverflow size (kib * kib * kib)).2, rest)
  | rest => ((size + kib - 1) % wordSize / kib, false, rest)

def skipBytes : List Char → List Char
  | 'I' :: 'B' :: rest => rest
  | 'B' :: rest => rest
  | rest => rest

/-- The value of an option in KiB and the text that is left. -/
def kibValue (value : ℤ) (rest : List Char) : ℤ × List Char :=
  let size := if value < 0 then 0 else value.toNat
  let (size, overflow, rest) := kibOfUnit size rest
  let rest := skipBytes rest
  let size :=
    if overflow ∨ maxAllocSize < size then maxAllocSize / kib else size
  (if longMax < (size : ℤ) then longMax else size, rest)

inductive OptionText where
  | on
  | off
  | number (value : ℤ)
  | invalid
  deriving DecidableEq

def numberText (sizeInKib : Bool) (buf : List Char) : OptionText :=
  let (value, rest) := strtol buf
  let (value, rest) :=
    if sizeInKib then kibValue value rest else (value, rest)
  if rest = [] then .number value else .invalid

/-- The tests of `pa_option_init`, one after the other. -/
def optionText (sizeInKib : Bool) (buf : List Char) : OptionText :=
  if buf = [] ∨ (strstr buf onList).isSome then .on
  else if (strstr buf offList).isSome then .off
  else numberText sizeInKib buf

def OptionDesc.apply (desc : OptionDesc) : OptionText → OptionDesc
  | .on => { desc with value := 1, init := .initialized }
  | .off => { desc with value := 0, init := .initialized }
  | .number value => { desc with value := value, init := .initialized }
  | .invalid => { desc with init := .defaulted }

/-- The string of a variable in a buffer of `64 + 1` characters.  With
`PA_USE_ENVIRON` a longer string is cut off, otherwise it is not found. -/
def readText (useEnviron : Bool) (s : CString) : Option (List Char) :=
  if useEnviron then some (s.chars.take 64)
  else if 64 < s.chars.length then none
  else some s.chars

structure Environment where
  useEnviron : Bool
  preloading : Bool
  lookup : List Char → Option CString

/-- `_pa_getenv`; without `environ` it looks for the name in upper case as
well. -/
def Environment.getenv (env : Environment) (name : List Char) :
    Option (List Char) :=
  if env.useEnviron then (env.lookup name).bind (readText true)
  else if env.preloading then none
  else
    ((env.lookup name).or (env.lookup (name.map toupper))).bind
      (readText false)

/-- `"palloc_"` and a name, in a buffer of `64 + 1` characters. -/
def variableName (name : List Char) : List Char :=
  ("palloc_".toList ++ name).take 64

/-- What the text of a variable says, or nothing when it is not found. -/
def textOutcome (sizeInKib : Bool) (found : Option (List Char)) :
    Option OptionText :=
  found.map fun s => optionText sizeInKib (s.map toupper)

/-- `pa_option_init`. -/
def optionInit (env : Environment) (desc : OptionDesc) : OptionDesc :=
  let found :=
    match env.getenv (variableName desc.name) with
    | some s => some s
    | none => desc.legacyName.bind fun name => env.getenv (variableName name)
  match textOutcome desc.sizeInKib found with
  | some text => desc.apply text
  | none =>
    if env.preloading then desc else { desc with init := .defaulted }

/-- `pa_option_get_size`. -/
def OptionDesc.getSize (desc : OptionDesc) : ℕ :=
  let size := if desc.value < 0 then 0 else desc.value.toNat
  if desc.sizeInKib then size * kib % wordSize else size

/-! ## Words -/

theorem strstr_isSome_iff (needle text : List Char) :
    (strstr needle text).isSome ↔ needle <:+: text := by
  induction text with
  | nil =>
    rw [strstr]
    cases needle with
    | nil => simp
    | cons c needle => simp
  | cons c text ih =>
    rw [strstr, List.infix_cons_iff]
    split
    · next hstarts =>
      simp [List.isPrefixOf_iff_prefix.mp hstarts]
    · next hstarts =>
      rw [ih]
      constructor
      · exact Or.inr
      · intro hpiece
        rcases hpiece with hpre | hpiece
        · exact absurd (List.isPrefixOf_iff_prefix.mpr hpre) hstarts
        · exact hpiece

/-- A text that is cut off after 64 characters is found in a short list just
as the whole text is. -/
theorem take_infix_iff {text list : List Char} (hlist : list.length < 64) :
    text.take 64 <:+: list ↔ text <:+: list := by
  by_cases hlen : text.length ≤ 64
  · rw [List.take_of_length_le hlen]
  · constructor <;> intro hpiece
    · have hle := hpiece.length_le
      rw [List.length_take] at hle
      omega
    · have hle := hpiece.length_le
      omega

def CString.upper (s : CString) : List Char := s.chars.map toupper

def onWords : List (List Char) :=
  ["1".toList, "TRUE".toList, "YES".toList, "ON".toList]

def offWords : List (List Char) :=
  ["0".toList, "FALSE".toList, "NO".toList, "OFF".toList]

/-- What `pa_option_init` makes of a string that it finds. -/
def wordOutcome (useEnviron sizeInKib : Bool) (s : CString) :
    Option OptionText :=
  textOutcome sizeInKib (readText useEnviron s)

/-- The string is that of the option's variable.  Only when it is not read
the older variable counts, and without `environ` nothing is read before the C
runtime is there. -/
structure Environment.Gives (env : Environment) (desc : OptionDesc)
    (s : CString) : Prop where
  found : env.lookup (variableName desc.name) = some s
  loaded : env.useEnviron = false → env.preloading = false
  legacy : readText env.useEnviron s = none →
    ∀ name ∈ desc.legacyName, env.getenv (variableName name) = none

structure WordsExact (env : Environment) (desc : OptionDesc) (s : CString) :
    Prop where
  on : wordOutcome env.useEnviron desc.sizeInKib s = some .on ↔
    s.upper = [] ∨ s.upper ∈ onWords
  off : wordOutcome env.useEnviron desc.sizeInKib s = some .off ↔
    s.upper ∈ offWords
  turned : ∀ text, wordOutcome env.useEnviron desc.sizeInKib s = some text →
    optionInit env desc = desc.apply text
  other : s.upper ≠ [] → s.upper ∉ onWords → s.upper ∉ offWords →
    (∃ value, optionInit env desc = desc.apply (.number value)) ∨
      (optionInit env desc).value = desc.value

/-- The string in upper case occurs in one of the lists without being one of
its words. -/
def WordFragment (s : CString) : Prop :=
  s.upper ≠ [] ∧
    (s.upper <:+: onList ∧ s.upper ∉ onWords ∨
      s.upper <:+: offList ∧ s.upper ∉ offWords)

theorem numberText_cases (sizeInKib : Bool) (buf : List Char) :
    (∃ value, numberText sizeInKib buf = .number value) ∨
      numberText sizeInKib buf = .invalid := by
  unfold numberText
  split
  split
  · split
    · exact Or.inl ⟨_, rfl⟩
    · exact Or.inr rfl

theorem optionText_eq_on_iff (sizeInKib : Bool) (buf : List Char) :
    optionText sizeInKib buf = .on ↔ buf = [] ∨ buf <:+: onList := by
  unfold optionText
  rw [← strstr_isSome_iff]
  split
  · next hon => simp [hon]
  · next hon =>
    split
    · simp [hon]
    · rcases numberText_cases sizeInKib buf with ⟨value, hnumber⟩ | hinvalid
      · simp [hnumber, hon]
      · simp [hinvalid, hon]

theorem optionText_eq_off_iff (sizeInKib : Bool) (buf : List Char) :
    optionText sizeInKib buf = .off ↔
      ¬ (buf = [] ∨ buf <:+: onList) ∧ buf <:+: offList := by
  unfold optionText
  rw [← strstr_isSome_iff, ← strstr_isSome_iff]
  split
  · next hon => simp [hon]
  · next hon =>
    split
    · next hoff => simp [hon, hoff]
    · next hoff =>
      rcases numberText_cases sizeInKib buf with ⟨value, hnumber⟩ | hinvalid
      · simp [hnumber, hoff]
      · simp [hinvalid, hoff]

theorem getenv_of_gives {env : Environment} {desc : OptionDesc} {s : CString}
    (hgives : env.Gives desc s) :
    env.getenv (variableName desc.name) = readText env.useEnviron s := by
  have hloaded := hgives.loaded
  unfold Environment.getenv
  rw [hgives.found]
  cases henviron : env.useEnviron with
  | true => rfl
  | false =>
    rw [hloaded henviron]
    rfl

theorem optionInit_of_gives {env : Environment} {desc : OptionDesc}
    {s : CString} (hgives : env.Gives desc s) :
    optionInit env desc =
      match wordOutcome env.useEnviron desc.sizeInKib s with
      | some text => desc.apply text
      | none => { desc with init := .defaulted } := by
  have hlegacy := hgives.legacy
  unfold optionInit wordOutcome
  rw [getenv_of_gives hgives]
  cases hread : readText env.useEnviron s with
  | some text => rfl
  | none =>
    have henviron : env.useEnviron = false := by
      by_contra htrue
      rw [Bool.not_eq_false] at htrue
      simp [readText, htrue] at hread
    rw [hgives.loaded henviron]
    cases hname : desc.legacyName with
    | none => rfl
    | some name =>
      have hnone := hlegacy hread name hname
      simp [hnone]

/-- A property of short texts holds of what is read exactly when it holds of
the whole string. -/
theorem wordOutcome_eq_iff {useEnviron sizeInKib : Bool} {s : CString}
    {text : OptionText} {property : List Char → Prop}
    (htext : ∀ buf, optionText sizeInKib buf = text ↔ property buf)
    (hshort : ∀ buf, property (buf.take 64) ↔ property buf)
    (hlong : ∀ buf : List Char, 64 < buf.length → ¬ property buf) :
    wordOutcome useEnviron sizeInKib s = some text ↔ property s.upper := by
  unfold wordOutcome textOutcome readText
  cases useEnviron with
  | true =>
    have hmap : (s.chars.take 64).map toupper = s.upper.take 64 :=
      List.map_take
    simp [htext, -List.map_take, hmap, hshort]
  | false =>
    simp only [Bool.false_eq_true, if_false]
    split
    · next hlen =>
      have hupper : 64 < s.upper.length := by simpa [CString.upper] using hlen
      simp [hlong _ hupper]
    · simp [htext, CString.upper]

theorem wordOutcome_on_iff (useEnviron sizeInKib : Bool) (s : CString) :
    wordOutcome useEnviron sizeInKib s = some .on ↔
      s.upper = [] ∨ s.upper <:+: onList := by
  refine wordOutcome_eq_iff (optionText_eq_on_iff sizeInKib) ?_ ?_
  · intro buf
    rw [take_infix_iff (by decide)]
    simp
  · rintro buf hlen (rfl | hpiece)
    · simp at hlen
    · have hle := hpiece.length_le
      have hlist : onList.length = 13 := by decide
      omega

theorem wordOutcome_off_iff (useEnviron sizeInKib : Bool) (s : CString) :
    wordOutcome useEnviron sizeInKib s = some .off ↔
      ¬ (s.upper = [] ∨ s.upper <:+: onList) ∧ s.upper <:+: offList := by
  refine wordOutcome_eq_iff (optionText_eq_off_iff sizeInKib) ?_ ?_
  · intro buf
    rw [take_infix_iff (by decide), take_infix_iff (by decide)]
    simp
  · rintro buf hlen ⟨_, hpiece⟩
    have hle := hpiece.length_le
    have hlist : offList.length = 14 := by decide
    omega

theorem infix_of_mem_onWords : ∀ word ∈ onWords, word <:+: onList := by
  decide

theorem infix_of_mem_offWords : ∀ word ∈ offWords,
    word ≠ [] ∧ ¬ word <:+: onList ∧ word <:+: offList := by
  decide

theorem not_infix_offList : ∀ word ∈ onWords, ¬ word <:+: offList := by
  decide

/-- Exactly the other fragments of the two lists are taken for words. -/
theorem words_exact_iff {env : Environment} {desc : OptionDesc} {s : CString}
    (hgives : env.Gives desc s) :
    WordsExact env desc s ↔ ¬ WordFragment s := by
  constructor
  · intro hexact hfragment
    have hon := hexact.on
    have hoff := hexact.off
    rw [wordOutcome_on_iff] at hon
    rw [wordOutcome_off_iff] at hoff
    obtain ⟨hne, ⟨hpiece, hword⟩ | ⟨hpiece, hword⟩⟩ := hfragment
    · rcases hon.mp (Or.inr hpiece) with hempty | hmem
      · exact hne hempty
      · exact hword hmem
    · by_cases hlist : s.upper = [] ∨ s.upper <:+: onList
      · rcases hon.mp hlist with hempty | hmem
        · exact hne hempty
        · exact not_infix_offList _ hmem hpiece
      · exact hword (hoff.mp ⟨hlist, hpiece⟩)
  · intro hfragment
    have hon : s.upper ≠ [] → s.upper <:+: onList → s.upper ∈ onWords := by
      intro hne hpiece
      by_contra hword
      exact hfragment ⟨hne, Or.inl ⟨hpiece, hword⟩⟩
    have hoff : s.upper ≠ [] → s.upper <:+: offList →
        s.upper ∈ offWords := by
      intro hne hpiece
      by_contra hword
      exact hfragment ⟨hne, Or.inr ⟨hpiece, hword⟩⟩
    have hinit := optionInit_of_gives hgives
    refine ⟨?_, ?_, ?_, ?_⟩
    · rw [wordOutcome_on_iff]
      constructor
      · rintro (hempty | hpiece)
        · exact Or.inl hempty
        · by_cases hempty : s.upper = []
          · exact Or.inl hempty
          · exact Or.inr (hon hempty hpiece)
      · rintro (hempty | hword)
        · exact Or.inl hempty
        · exact Or.inr (infix_of_mem_onWords _ hword)
    · rw [wordOutcome_off_iff]
      constructor
      · intro ⟨hlist, hpiece⟩
        exact hoff (fun hempty => hlist (Or.inl hempty)) hpiece
      · intro hword
        obtain ⟨hne, hnot, hpiece⟩ := infix_of_mem_offWords _ hword
        exact ⟨fun h => h.elim hne hnot, hpiece⟩
    · intro text htext
      rw [hinit, htext]
    · intro hne hnotOn hnotOff
      cases htext : wordOutcome env.useEnviron desc.sizeInKib s with
      | none => simp [hinit, htext]
      | some text =>
        rw [hinit, htext]
        cases text with
        | on =>
          rcases (wordOutcome_on_iff _ _ _).mp htext with hempty | hpiece
          · exact absurd hempty hne
          · exact absurd (hon hne hpiece) hnotOn
        | off =>
          have hpiece := ((wordOutcome_off_iff _ _ _).mp htext).2
          exact absurd (hoff hne hpiece) hnotOff
        | number value => exact Or.inl ⟨value, rfl⟩
        | invalid => exact Or.inr rfl

/-- A variable of the process, in an environment that has no other. -/
def oneVariable (name : List Char) (s : CString) : Environment :=
  { useEnviron := true, preloading := false,
    lookup := fun other => if other = name then some s else none }

/-- `verbose`, which is off. -/
def verboseOption : OptionDesc :=
  { name := "verbose".toList, legacyName := none, sizeInKib := false,
    value := 0, init := .uninit }

theorem oneVariable_gives (desc : OptionDesc) (s : CString)
    (hlegacy : desc.legacyName = none) :
    (oneVariable (variableName desc.name) s).Gives desc s := by
  refine ⟨?_, fun _ => rfl, fun _ => ?_⟩
  · simp [oneVariable]
  · simp [hlegacy]

theorem words_exact_iff_yes :
    WordsExact (oneVariable (variableName verboseOption.name)
        ⟨"yes".toList, by decide⟩) verboseOption ⟨"yes".toList, by decide⟩ ↔
      ¬ WordFragment ⟨"yes".toList, by decide⟩ :=
  words_exact_iff (oneVariable_gives _ _ rfl)

/-- `palloc_verbose=o` turns the option on, since the letter occurs in the
list. -/
theorem fragment_turns_on :
    (optionInit (oneVariable (variableName verboseOption.name)
        ⟨"o".toList, by decide⟩) verboseOption).value = 1 ∧
      ¬ WordsExact (oneVariable (variableName verboseOption.name)
        ⟨"o".toList, by decide⟩) verboseOption ⟨"o".toList, by decide⟩ := by
  constructor
  · decide +kernel
  · intro hexact
    have hon := hexact.on.mp (by decide +kernel)
    revert hon
    decide

end Palloc
