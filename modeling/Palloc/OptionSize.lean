import Palloc.OptionParse
import Mathlib.Data.List.TakeWhile

/-!
# Options that are a size

`reserve_os_memory` and `arena_reserve` are kept in KiB.  This file says
which strings are a size, how many bytes such a string denotes, and what
`pa_option_get_size` returns for a string of any kind.
-/

namespace Palloc

open MachineWord

/-! ## Sizes as text -/

inductive NumberSign where
  | plain
  | plus
  | minus
  deriving DecidableEq

def NumberSign.chars : NumberSign → List Char
  | .plain => []
  | .plus => ['+']
  | .minus => ['-']

inductive SizeUnit where
  | byte
  | kilo
  | mega
  | giga
  | tera
  deriving DecidableEq

def SizeUnit.chars : SizeUnit → List Char
  | .byte => []
  | .kilo => ['K']
  | .mega => ['M']
  | .giga => ['G']
  | .tera => ['T']

def SizeUnit.bytes : SizeUnit → ℕ
  | .byte => 1
  | .kilo => 1024
  | .mega => 1024 ^ 2
  | .giga => 1024 ^ 3
  | .tera => 1024 ^ 4

/-- Nothing, `B`, or `iB`. -/
inductive BytesMark where
  | none
  | b
  | ib
  deriving DecidableEq

def BytesMark.chars : BytesMark → List Char
  | .none => []
  | .b => ['B']
  | .ib => ['I', 'B']

structure SizeText where
  space : List Char
  sign : NumberSign
  digits : List Char
  unit : SizeUnit
  mark : BytesMark
  space_isSpace : ∀ c ∈ space, isSpace c = true
  digits_ne : digits ≠ []
  digits_isDigit : ∀ c ∈ digits, c.isDigit = true

def SizeText.chars (t : SizeText) : List Char :=
  t.space ++ (t.sign.chars ++ (t.digits ++ (t.unit.chars ++ t.mark.chars)))

/-- The number of bytes that the text denotes; a negative number counts as
zero. -/
def SizeText.bytes (t : SizeText) : ℕ :=
  if t.sign = .minus then 0 else decimal t.digits * t.unit.bytes

def roundUpKib (size : ℕ) : ℕ := (size + kib - 1) / kib * kib

def UnitAlone (text : List Char) : Prop :=
  ∃ (unit : SizeUnit) (mark : BytesMark), text = unit.chars ++ mark.chars

def IsSize (text : List Char) : Prop := ∃ t : SizeText, text = t.chars

structure SizeExact (env : Environment) (desc : OptionDesc) (s : CString) :
    Prop where
  size : ∀ t : SizeText, s.upper = t.chars →
    roundUpKib t.bytes ≤ maxAllocSize →
      (optionInit env desc).getSize = roundUpKib t.bytes
  bounded : ∀ t : SizeText, s.upper = t.chars →
    (optionInit env desc).getSize ≤ maxAllocSize
  other : ¬ IsSize s.upper → (optionInit env desc).value = desc.value

/-! ## Which strings are read right -/

/-- The KiB of a number.  The limit compares a number of KiB with a number of
bytes, and leaves what is between the two as it is. -/
def SizeText.kibs (t : SizeText) : ℕ :=
  if kib * maxAllocSize < roundUpKib t.bytes then maxAllocSize / kib
  else roundUpKib t.bytes / kib

/-- The size is that of the number, as far as the number is in bounds. -/
def SizeText.Agrees (t : SizeText) (size : ℕ) : Prop :=
  (roundUpKib t.bytes ≤ maxAllocSize → size = roundUpKib t.bytes) ∧
    size ≤ maxAllocSize

def TurnsOn (text : List Char) : Prop := text = [] ∨ text <:+: onList

/-- A text that is read as a whole.  A number is not between the limit in
bytes and the same number of KiB; any other text that gives a value gives the
one that the option has already. -/
structure WholeMet (desc : OptionDesc) (text : List Char) : Prop where
  number : ∀ t : SizeText, text = t.chars →
    roundUpKib t.bytes ≤ maxAllocSize ∨
      kib * maxAllocSize < roundUpKib t.bytes
  on : ¬ IsSize text → TurnsOn text → desc.value = 1
  zero : ¬ IsSize text → ¬ TurnsOn text →
    text <:+: offList ∨ UnitAlone text → desc.value = 0

structure CutMet (desc : OptionDesc) (text : List Char) : Prop where
  number : ∀ t : SizeText, text.take 64 = t.chars →
    (∀ whole : SizeText, text = whole.chars → whole.Agrees (t.kibs * kib)) ∧
      (¬ IsSize text → desc.value = t.kibs)
  other : ¬ IsSize (text.take 64) → ∀ whole : SizeText, text = whole.chars →
    whole.Agrees desc.getSize

/-- The condition on a string; without `PA_USE_ENVIRON` one of more than 64
characters is not found. -/
def SizeMet (useEnviron : Bool) (desc : OptionDesc) (s : CString) : Prop :=
  if s.chars.length ≤ 64 then WholeMet desc s.upper
  else if useEnviron then CutMet desc s.upper
  else ∀ t : SizeText, s.upper = t.chars → t.Agrees desc.getSize

/-! ## Numbers -/

/-- A number as a `long`. -/
def limitLong (value : ℤ) : ℤ := max (- longMax - 1) (min longMax value)

def NumberSign.value (sign : NumberSign) (digits : List Char) : ℤ :=
  if sign = .minus then - (decimal digits : ℤ) else decimal digits

theorem not_space_of_isDigit {c : Char} (hdigit : c.isDigit = true) :
    isSpace c = false ∧ c ≠ '-' ∧ c ≠ '+' := by
  refine ⟨?_, ?_, ?_⟩
  · by_contra hspace
    simp only [isSpace, Bool.not_eq_false, Bool.or_eq_true,
      decide_eq_true_eq] at hspace
    rcases hspace with ((((rfl | rfl) | rfl) | rfl) | rfl) | rfl <;>
      exact absurd hdigit (by decide)
  · rintro rfl
    exact absurd hdigit (by decide)
  · rintro rfl
    exact absurd hdigit (by decide)

theorem takeSign_digit {c : Char} (text : List Char)
    (hdigit : c.isDigit = true) :
    takeSign (c :: text) = (false, c :: text) := by
  obtain ⟨_, hminus, hplus⟩ := not_space_of_isDigit hdigit
  unfold takeSign
  split
  · next heq => exact absurd (List.cons.inj heq).1 hminus
  · next heq => exact absurd (List.cons.inj heq).1 hplus
  · rfl

theorem takeSign_sign (sign : NumberSign) {c : Char} (text : List Char)
    (hdigit : c.isDigit = true) :
    takeSign (sign.chars ++ c :: text) =
      (decide (sign = .minus), c :: text) := by
  cases sign with
  | plain => exact takeSign_digit text hdigit
  | plus => rfl
  | minus => rfl

/-- `strtol` reads spaces, a sign and digits up to the first character that
is not a digit. -/
theorem strtol_number {space digits rest : List Char} (sign : NumberSign)
    (hspace : ∀ c ∈ space, isSpace c = true) (hne : digits ≠ [])
    (hdigits : ∀ c ∈ digits, c.isDigit = true)
    (hrest : ∀ c ∈ rest.head?, c.isDigit = false) :
    strtol (space ++ (sign.chars ++ (digits ++ rest))) =
      (limitLong (sign.value digits), rest) := by
  obtain ⟨c, more, rfl⟩ := List.exists_cons_of_ne_nil hne
  have hc := hdigits c (by simp)
  have hdrop : (space ++ (sign.chars ++ (c :: more ++ rest))).dropWhile
      isSpace = sign.chars ++ c :: (more ++ rest) := by
    rw [List.dropWhile_append_of_pos hspace]
    cases sign with
    | plain => simp [NumberSign.chars, (not_space_of_isDigit hc).1]
    | plus => rfl
    | minus => rfl
  have hstop : rest.takeWhile Char.isDigit = [] ∧
      rest.dropWhile Char.isDigit = rest := by
    cases rest with
    | nil => exact ⟨rfl, rfl⟩
    | cons d rest => simp [hrest d (by simp)]
  have htake : (c :: (more ++ rest)).takeWhile Char.isDigit = c :: more := by
    rw [← List.cons_append, List.takeWhile_append_of_pos hdigits, hstop.1,
      List.append_nil]
  have hafter : (c :: (more ++ rest)).dropWhile Char.isDigit = rest := by
    rw [← List.cons_append, List.dropWhile_append_of_pos hdigits, hstop.2]
  unfold strtol
  rw [hdrop, takeSign_sign sign _ hc]
  simp only [htake, hafter]
  cases sign <;> rfl

theorem exists_sign (text : List Char) :
    ∃ sign : NumberSign, text = sign.chars ++ (takeSign text).2 := by
  unfold takeSign
  split
  · exact ⟨.minus, rfl⟩
  · exact ⟨.plus, rfl⟩
  · exact ⟨.plain, rfl⟩

/-- What `strtol` reads is a number, or it reads nothing. -/
theorem strtol_cases (text : List Char) :
    strtol text = (0, text) ∨
      ∃ (space digits rest : List Char) (sign : NumberSign),
        (∀ c ∈ space, isSpace c = true) ∧ digits ≠ [] ∧
          (∀ c ∈ digits, c.isDigit = true) ∧
          text = space ++ (sign.chars ++ (digits ++ rest)) ∧
          (strtol text).2 = rest := by
  have hspace : ∀ c ∈ text.takeWhile isSpace, isSpace c = true :=
    fun c hc => List.mem_takeWhile_imp hc
  obtain ⟨sign, hsign⟩ := exists_sign (text.dropWhile isSpace)
  by_cases hdigits :
      (takeSign (text.dropWhile isSpace)).2.takeWhile Char.isDigit = []
  · left
    simp [strtol, hdigits]
  · right
    refine ⟨_, _, (takeSign (text.dropWhile isSpace)).2.dropWhile
      Char.isDigit, sign, hspace, hdigits,
      fun c hc => List.mem_takeWhile_imp hc, ?_, ?_⟩
    · rw [List.takeWhile_append_dropWhile, ← hsign,
        List.takeWhile_append_dropWhile]
    · simp [strtol, hdigits]

/-! ## Units -/

/-- The size in KiB that a number with a unit gives, and whether it
wrapped. -/
def SizeUnit.amount (unit : SizeUnit) (size : ℕ) : ℕ × Bool :=
  match unit with
  | .byte => ((size + kib - 1) % wordSize / kib, false)
  | .kilo => (size, false)
  | .mega => mulOverflow size kib
  | .giga => mulOverflow size (kib * kib)
  | .tera => mulOverflow size (kib * kib * kib)

/-- A size in KiB as a `long` in the range of `kibValue`. -/
def limitKib (size : ℕ × Bool) : ℤ :=
  let kibs :=
    if size.2 ∨ maxAllocSize < size.1 then maxAllocSize / kib else size.1
  if longMax < (kibs : ℤ) then longMax else kibs

theorem kibValue_unit (value : ℤ) (unit : SizeUnit) (mark : BytesMark) :
    kibValue value (unit.chars ++ mark.chars) =
      (limitKib (unit.amount (if value < 0 then 0 else value.toNat)), []) := by
  cases unit <;> cases mark <;> rfl

theorem exists_mark (text : List Char) :
    skipBytes text = [] → ∃ mark : BytesMark, text = mark.chars := by
  unfold skipBytes
  split
  · rintro rfl
    exact ⟨.ib, rfl⟩
  · rintro rfl
    exact ⟨.b, rfl⟩
  · rintro rfl
    exact ⟨.none, rfl⟩

theorem exists_unit (size : ℕ) (text : List Char) :
    ∃ unit : SizeUnit, text = unit.chars ++ (kibOfUnit size text).2.2 := by
  unfold kibOfUnit
  split
  · exact ⟨.kilo, rfl⟩
  · exact ⟨.mega, rfl⟩
  · exact ⟨.giga, rfl⟩
  · exact ⟨.tera, rfl⟩
  · exact ⟨.byte, rfl⟩

theorem unit_of_kibValue {value : ℤ} {text : List Char}
    (hrest : (kibValue value text).2 = []) : UnitAlone text := by
  obtain ⟨unit, hunit⟩ :=
    exists_unit (if value < 0 then 0 else value.toNat) text
  obtain ⟨mark, hmark⟩ := exists_mark
    (kibOfUnit (if value < 0 then 0 else value.toNat) text).2.2 hrest
  exact ⟨unit, mark, hunit.trans (by rw [hmark])⟩

theorem head?_unit (unit : SizeUnit) (mark : BytesMark) :
    ∀ c ∈ (unit.chars ++ mark.chars).head?, c.isDigit = false := by
  cases unit <;> cases mark <;> rintro c ⟨⟩ <;> rfl

/-- The value of an option in KiB for a text that is a size. -/
def SizeText.value (t : SizeText) : ℤ :=
  limitKib (t.unit.amount
    (if t.sign = .minus then 0 else min (decimal t.digits) (2 ^ 63 - 1)))

theorem limitLong_toNat (sign : NumberSign) (digits : List Char) :
    (if limitLong (sign.value digits) < 0 then 0
      else (limitLong (sign.value digits)).toNat) =
      if sign = .minus then 0 else min (decimal digits) (2 ^ 63 - 1) := by
  have hmax : longMax = 2 ^ 63 - 1 := rfl
  unfold limitLong NumberSign.value
  cases sign with
  | minus =>
    simp only [if_true]
    split <;> omega
  | plain =>
    simp only [reduceCtorEq, if_false]
    split <;> omega
  | plus =>
    simp only [reduceCtorEq, if_false]
    split <;> omega

theorem numberText_size (t : SizeText) :
    numberText true t.chars = .number t.value := by
  have hstrtol := strtol_number t.sign t.space_isSpace t.digits_ne
    t.digits_isDigit (head?_unit t.unit t.mark)
  unfold numberText SizeText.chars
  rw [hstrtol]
  simp only [if_true, kibValue_unit, limitLong_toNat]
  rfl

theorem size_of_numberText {text : List Char} {value : ℤ}
    (hnumber : numberText true text = .number value) :
    UnitAlone text ∨ ∃ t : SizeText, text = t.chars := by
  have hrest : (kibValue (strtol text).1 (strtol text).2).2 = [] := by
    by_contra hrest
    simp [numberText, hrest] at hnumber
  rcases strtol_cases text with hzero | hread
  · left
    rw [hzero] at hrest
    exact unit_of_kibValue hrest
  · right
    obtain ⟨space, digits, rest, sign, hspace, hne, hdigits, htext, hsnd⟩ :=
      hread
    rw [hsnd] at hrest
    obtain ⟨unit, mark, rfl⟩ := unit_of_kibValue hrest
    exact ⟨⟨space, sign, digits, unit, mark, hspace, hne, hdigits⟩, htext⟩

/-! ## Amounts -/

theorem le_roundUpKib (size : ℕ) : size ≤ roundUpKib size := by
  unfold roundUpKib kib
  omega

theorem roundUpKib_mul (size : ℕ) :
    roundUpKib (size * kib) = size * kib := by
  unfold roundUpKib kib
  omega

theorem maxAllocSize_kib : maxAllocSize / kib * kib = maxAllocSize := by
  decide

theorem limit_lt_iff (size : ℕ) :
    kib * maxAllocSize < size * kib ↔ maxAllocSize < size := by
  rw [Nat.mul_comm kib]
  exact Nat.mul_lt_mul_right (by decide)

theorem kibs_mul_kib (t : SizeText) :
    t.kibs * kib =
      if kib * maxAllocSize < roundUpKib t.bytes then maxAllocSize
      else roundUpKib t.bytes := by
  have hround : roundUpKib t.bytes / kib * kib = roundUpKib t.bytes :=
    Nat.div_mul_cancel (Dvd.intro_left _ rfl)
  unfold SizeText.kibs
  split
  · exact maxAllocSize_kib
  · exact hround

theorem kibs_le (t : SizeText) : t.kibs ≤ maxAllocSize := by
  unfold SizeText.kibs
  split
  · exact Nat.div_le_self _ _
  · next hle => exact Nat.div_le_of_le_mul (not_lt.mp hle)

theorem limitKib_eq (size : ℕ) :
    limitKib (size, false) =
      (if maxAllocSize < size then maxAllocSize / kib else size : ℕ) := by
  have hlong : (maxAllocSize : ℤ) ≤ longMax := by decide
  have hdiv : maxAllocSize / kib ≤ maxAllocSize := Nat.div_le_self _ _
  unfold limitKib
  simp only [Bool.false_eq_true, false_or]
  split_ifs <;> omega

theorem limitKib_wrapped (size : ℕ) :
    limitKib (size, true) = (maxAllocSize / kib : ℕ) := by
  have hlong : ¬ longMax < ((maxAllocSize / kib : ℕ) : ℤ) := by decide
  unfold limitKib
  simp only [true_or, if_true, hlong, if_false]

theorem limitKib_mulOverflow (size factor : ℕ) :
    limitKib (mulOverflow size factor) =
      (if kib * maxAllocSize < size * factor * kib then maxAllocSize / kib
        else size * factor : ℕ) := by
  have hword : maxAllocSize < wordSize := by decide
  unfold mulOverflow
  rw [if_congr (limit_lt_iff (size * factor)) rfl rfl]
  by_cases hwrap : wordSize ≤ size * factor
  · rw [decide_eq_true hwrap, limitKib_wrapped, if_pos (by omega)]
  · rw [decide_eq_false hwrap, Nat.mod_eq_of_lt (not_le.mp hwrap),
      limitKib_eq]

/-- What is stored for a number up to `LONG_MAX` with a unit. -/
theorem limitKib_amount (unit : SizeUnit) {size : ℕ}
    (hsize : size ≤ 2 ^ 63 - 1) :
    limitKib (unit.amount size) =
      (if kib * maxAllocSize < roundUpKib (size * unit.bytes) then
        maxAllocSize / kib
      else roundUpKib (size * unit.bytes) / kib : ℕ) := by
  have hproduct : ∀ factor : ℕ, unit.bytes = factor * kib →
      unit.amount size = mulOverflow size factor →
      limitKib (unit.amount size) =
        (if kib * maxAllocSize < roundUpKib (size * unit.bytes) then
          maxAllocSize / kib
        else roundUpKib (size * unit.bytes) / kib : ℕ) := by
    intro factor hbytes hamount
    have hround : roundUpKib (size * unit.bytes) = size * factor * kib := by
      rw [hbytes, ← Nat.mul_assoc, roundUpKib_mul]
    rw [hamount, limitKib_mulOverflow, hround,
      Nat.mul_div_cancel _ (by decide)]
  cases unit with
  | byte =>
    have hround : roundUpKib (size * SizeUnit.byte.bytes) =
        (size + kib - 1) / kib * kib := by
      rw [SizeUnit.bytes, Nat.mul_one, roundUpKib]
    have hword : (size + kib - 1) % wordSize = size + kib - 1 := by
      apply Nat.mod_eq_of_lt
      unfold wordSize kib
      omega
    rw [hround, Nat.mul_div_cancel _ (by decide),
      if_congr (limit_lt_iff _) rfl rfl, SizeUnit.amount, hword, limitKib_eq]
  | kilo =>
    have hround : roundUpKib (size * SizeUnit.kilo.bytes) = size * kib :=
      roundUpKib_mul size
    rw [hround, Nat.mul_div_cancel _ (by decide),
      if_congr (limit_lt_iff size) rfl rfl, SizeUnit.amount, limitKib_eq]
  | mega => exact hproduct kib rfl rfl
  | giga => exact hproduct (kib * kib) rfl rfl
  | tera => exact hproduct (kib * kib * kib) rfl rfl

theorem value_eq_kibs (t : SizeText) : t.value = t.kibs := by
  unfold SizeText.value SizeText.kibs
  by_cases hminus : t.sign = .minus
  · have hbytes : t.bytes = 0 * t.unit.bytes := by
      simp [SizeText.bytes, hminus]
    rw [if_pos hminus, limitKib_amount t.unit (Nat.zero_le _), hbytes]
  · have hbytes : t.bytes = decimal t.digits * t.unit.bytes := by
      simp [SizeText.bytes, hminus]
    rw [if_neg hminus, limitKib_amount t.unit (min_le_right _ _), hbytes]
    by_cases hfits : decimal t.digits ≤ 2 ^ 63 - 1
    · rw [min_eq_left hfits]
    · have hunit : 1 ≤ t.unit.bytes := by
        cases t.unit <;> decide
      have hlarge : ∀ size, 2 ^ 63 - 1 ≤ size →
          kib * maxAllocSize < roundUpKib (size * t.unit.bytes) := by
        intro size hsize
        have hlimit : kib * maxAllocSize < 2 ^ 63 - 1 := by decide
        calc kib * maxAllocSize < 2 ^ 63 - 1 := hlimit
          _ ≤ size := hsize
          _ ≤ size * t.unit.bytes := Nat.le_mul_of_pos_right _ hunit
          _ ≤ roundUpKib (size * t.unit.bytes) := le_roundUpKib _
      rw [if_pos (hlarge _ (le_min (by omega) le_rfl)),
        if_pos (hlarge _ (by omega))]

/-! ## Sizes and words -/

theorem sizeText_char (t : SizeText) : ∀ c ∈ t.chars, c ≠ ';' := by
  intro c hc
  unfold SizeText.chars at hc
  simp only [List.mem_append] at hc
  rcases hc with hspace | hsign | hdigit | hunit | hmark
  · rintro rfl
    exact absurd (t.space_isSpace _ hspace) (by decide)
  · rintro rfl
    cases hkind : t.sign <;> simp [hkind, NumberSign.chars] at hsign
  · rintro rfl
    exact absurd (t.digits_isDigit _ hdigit) (by decide)
  · rintro rfl
    cases hkind : t.unit <;> simp [hkind, SizeUnit.chars] at hunit
  · rintro rfl
    cases hkind : t.mark <;> simp [hkind, BytesMark.chars] at hmark

theorem sizeText_digit (t : SizeText) :
    t.chars.any Char.isDigit = true := by
  obtain ⟨c, digits, hdigits⟩ := List.exists_cons_of_ne_nil t.digits_ne
  have hc := t.digits_isDigit c (by simp [hdigits])
  simp [SizeText.chars, hdigits, hc]

theorem mem_fragments {text list : List Char} (hpiece : text <:+: list) :
    text ∈ list.tails.flatMap List.inits := by
  obtain ⟨rest, hstarts, hsuffix⟩ := List.infix_iff_prefix_suffix.mp hpiece
  exact List.mem_flatMap.mpr
    ⟨rest, (List.mem_tails _ _).mpr hsuffix, (List.mem_inits _ _).mpr hstarts⟩

theorem digit_of_fragment :
    (∀ text ∈ onList.tails.flatMap List.inits,
        text.any Char.isDigit = true → ';' ∉ text → text = ['1']) ∧
      ∀ text ∈ offList.tails.flatMap List.inits,
        text.any Char.isDigit = true → ';' ∉ text → text = ['0'] := by
  decide +kernel

theorem bytes_of_singleton {t : SizeText} {c : Char} (htext : t.chars = [c]) :
    t.bytes = c.toNat - '0'.toNat := by
  obtain ⟨d, digits, hdigits⟩ := List.exists_cons_of_ne_nil t.digits_ne
  have hlen := congrArg List.length htext
  simp only [SizeText.chars, hdigits, List.length_append, List.length_cons,
    List.length_nil] at hlen
  have hspace : t.space = [] := List.length_eq_zero_iff.mp (by omega)
  have hmore : digits = [] := List.length_eq_zero_iff.mp (by omega)
  have hsign : t.sign = .plain := by
    cases hkind : t.sign <;> simp [hkind, NumberSign.chars] at hlen ⊢ <;>
      omega
  have hunit : t.unit = .byte := by
    cases hkind : t.unit <;> simp [hkind, SizeUnit.chars] at hlen ⊢ <;>
      omega
  have hmark : t.mark = .none := by
    cases hkind : t.mark <;> simp [hkind, BytesMark.chars] at hlen ⊢ <;>
      omega
  have hd : d = c := by
    simpa [SizeText.chars, hspace, hsign, hdigits, hmore, hunit, hmark,
      NumberSign.chars, SizeUnit.chars, BytesMark.chars] using htext
  simp [SizeText.bytes, hsign, hunit, hdigits, hmore, hd, decimal,
    SizeUnit.bytes]

/-! ## Reading the option -/

theorem getSize_of_value {desc : OptionDesc} {size : ℕ}
    (hkib : desc.sizeInKib = true) (hvalue : desc.value = size)
    (hsize : size ≤ maxAllocSize) : desc.getSize = size * kib := by
  have hneg : ¬ (size : ℤ) < 0 := by omega
  have hword : size * kib < wordSize := by
    have hmax : maxAllocSize * kib < wordSize := by decide
    have hmul := Nat.mul_le_mul_right kib hsize
    omega
  simp [OptionDesc.getSize, hkib, hvalue, hneg, Nat.mod_eq_of_lt hword]

theorem bytes_of_fragment (t : SizeText) :
    (TurnsOn t.chars → t.bytes = 1) ∧
      (t.chars <:+: offList → t.bytes = 0) := by
  have hdigit := sizeText_digit t
  have hchar : ';' ∉ t.chars := fun hmem => sizeText_char t _ hmem rfl
  constructor
  · rintro (hempty | hpiece)
    · simp [hempty] at hdigit
    · exact bytes_of_singleton
        (digit_of_fragment.1 _ (mem_fragments hpiece) hdigit hchar)
  · intro hpiece
    exact bytes_of_singleton
      (digit_of_fragment.2 _ (mem_fragments hpiece) hdigit hchar)

structure TextRead (before after : OptionDesc) (text : List Char) :
    Prop where
  number : ∀ t : SizeText, text = t.chars → after.value = t.kibs
  on : TurnsOn text → after.value = 1
  zero : ¬ TurnsOn text → text <:+: offList ∨ UnitAlone text →
    after.value = 0
  other : ¬ IsSize text → ¬ TurnsOn text → ¬ text <:+: offList →
    ¬ UnitAlone text → after.value = before.value

theorem strtol_unit (unit : SizeUnit) (mark : BytesMark) :
    strtol (unit.chars ++ mark.chars) = (0, unit.chars ++ mark.chars) := by
  cases unit <;> cases mark <;> rfl

theorem numberText_unit {text : List Char} (hunit : UnitAlone text) :
    numberText true text = .number 0 := by
  obtain ⟨unit, mark, rfl⟩ := hunit
  have hamount : limitKib (unit.amount 0) = 0 := by
    rw [limitKib_amount unit (Nat.zero_le _), Nat.zero_mul]
    decide
  unfold numberText
  rw [strtol_unit]
  simp only [if_true, kibValue_unit, lt_irrefl, if_false, Int.toNat_zero,
    hamount]

theorem textRead_apply (desc : OptionDesc) (text : List Char) :
    TextRead desc (desc.apply (optionText true text)) text := by
  have hon : TurnsOn text →
      (desc.apply (optionText true text)).value = 1 := by
    intro hon
    rw [(optionText_eq_on_iff true text).mpr hon]
    rfl
  have hoff : ¬ TurnsOn text → text <:+: offList →
      (desc.apply (optionText true text)).value = 0 := by
    intro hon hoff
    rw [(optionText_eq_off_iff true text).mpr ⟨hon, hoff⟩]
    rfl
  have hnumber : ¬ TurnsOn text → ¬ text <:+: offList →
      optionText true text = numberText true text := by
    unfold TurnsOn
    intro hon hoff
    rw [← strstr_isSome_iff] at hon hoff
    unfold optionText
    rw [if_neg hon, if_neg hoff]
  refine ⟨?_, hon, ?_, ?_⟩
  · rintro t rfl
    by_cases hlistOn : TurnsOn t.chars
    · rw [hon hlistOn]
      unfold SizeText.kibs
      rw [(bytes_of_fragment t).1 hlistOn]
      decide
    · by_cases hlistOff : t.chars <:+: offList
      · rw [hoff hlistOn hlistOff]
        unfold SizeText.kibs
        rw [(bytes_of_fragment t).2 hlistOff]
        decide
      · rw [hnumber hlistOn hlistOff, numberText_size, value_eq_kibs]
        rfl
  · intro hlistOn hzero
    by_cases hlistOff : text <:+: offList
    · exact hoff hlistOn hlistOff
    · rw [hnumber hlistOn hlistOff,
        numberText_unit (hzero.resolve_left hlistOff)]
      rfl
  · intro hsize hlistOn hlistOff hunit
    rw [hnumber hlistOn hlistOff]
    rcases numberText_cases true text with ⟨value, hvalue⟩ | hinvalid
    · exact ((size_of_numberText hvalue).elim hunit hsize).elim
    · rw [hinvalid]
      rfl

/-! ## When the size is that of the text -/

section Exact

variable {env : Environment} {desc : OptionDesc} {s : CString}

theorem sizeExact_iff_agrees :
    SizeExact env desc s ↔
      (∀ t : SizeText, s.upper = t.chars →
        t.Agrees (optionInit env desc).getSize) ∧
      (¬ IsSize s.upper → (optionInit env desc).value = desc.value) :=
  ⟨fun h => ⟨fun t ht => ⟨h.size t ht, h.bounded t ht⟩, h.other⟩,
    fun h => ⟨fun t ht => (h.1 t ht).1, fun t ht => (h.1 t ht).2, h.2⟩⟩

theorem agrees_kibs_iff (t : SizeText) :
    t.Agrees (t.kibs * kib) ↔
      roundUpKib t.bytes ≤ maxAllocSize ∨
        kib * maxAllocSize < roundUpKib t.bytes := by
  have hkib : maxAllocSize ≤ kib * maxAllocSize :=
    Nat.le_mul_of_pos_left _ (by decide)
  unfold SizeText.Agrees
  rw [kibs_mul_kib]
  split <;> omega

theorem whole_agrees_iff {after : OptionDesc} {text : List Char}
    (hread : TextRead desc after text) (hkib : after.sizeInKib = true) :
    ((∀ t : SizeText, text = t.chars → t.Agrees after.getSize) ∧
      (¬ IsSize text → after.value = desc.value)) ↔ WholeMet desc text := by
  have hnumber : ∀ t : SizeText, text = t.chars →
      after.getSize = t.kibs * kib := fun t ht =>
    getSize_of_value hkib (hread.number t ht) (kibs_le t)
  constructor
  · rintro ⟨hsize, hother⟩
    refine ⟨?_, ?_, ?_⟩
    · intro t ht
      rw [← agrees_kibs_iff, ← hnumber t ht]
      exact hsize t ht
    · intro hnot hon
      rw [← hother hnot, hread.on hon]
    · intro hnot hon hzero
      rw [← hother hnot, hread.zero hon hzero]
  · intro hmet
    refine ⟨?_, ?_⟩
    · intro t ht
      rw [hnumber t ht, agrees_kibs_iff]
      exact hmet.number t ht
    · intro hnot
      by_cases hon : TurnsOn text
      · rw [hread.on hon, hmet.on hnot hon]
      · by_cases hzero : text <:+: offList ∨ UnitAlone text
        · rw [hread.zero hon hzero, hmet.zero hnot hon hzero]
        · obtain ⟨hoff, hunit⟩ := not_or.mp hzero
          exact hread.other hnot hon hoff hunit

theorem not_word_of_length {text : List Char} (hlen : text.length = 64) :
    ¬ TurnsOn text ∧ ¬ text <:+: offList ∧ ¬ UnitAlone text := by
  have hon : onList.length = 13 := by decide
  have hoff : offList.length = 14 := by decide
  refine ⟨?_, ?_, ?_⟩
  · rintro (rfl | hpiece)
    · simp at hlen
    · have hle := hpiece.length_le
      omega
  · intro hpiece
    have hle := hpiece.length_le
    omega
  · rintro ⟨unit, mark, rfl⟩
    cases unit <;> cases mark <;> simp [SizeUnit.chars, BytesMark.chars] at hlen

theorem cut_agrees_iff {after : OptionDesc} {text : List Char}
    (hlen : 64 < text.length) (hread : TextRead desc after (text.take 64))
    (hkib : after.sizeInKib = true) (hkib' : desc.sizeInKib = true) :
    ((∀ t : SizeText, text = t.chars → t.Agrees after.getSize) ∧
      (¬ IsSize text → after.value = desc.value)) ↔ CutMet desc text := by
  obtain ⟨hon, hoff, hunit⟩ := not_word_of_length
    (show (text.take 64).length = 64 by
      rw [List.length_take, min_eq_left hlen.le])
  have hsize : after.value = desc.value → after.getSize = desc.getSize := by
    intro hvalue
    simp only [OptionDesc.getSize, hvalue, hkib, hkib']
  by_cases hcut : IsSize (text.take 64)
  · obtain ⟨t, ht⟩ := hcut
    have hvalue := hread.number t ht
    have hgetSize := getSize_of_value hkib hvalue (kibs_le t)
    have hsame : ∀ t' : SizeText, text.take 64 = t'.chars →
        t'.kibs = t.kibs := by
      intro t' ht'
      have hvalue' := hread.number t' ht'
      rw [hvalue] at hvalue'
      exact_mod_cast hvalue'.symm
    rw [hgetSize, hvalue]
    constructor
    · rintro ⟨hwhole, hother⟩
      refine ⟨?_, fun hnot => absurd ⟨t, ht⟩ hnot⟩
      intro t' ht'
      rw [hsame t' ht']
      exact ⟨hwhole, fun hnot => (hother hnot).symm⟩
    · intro hmet
      exact ⟨(hmet.number t ht).1,
        fun hnot => ((hmet.number t ht).2 hnot).symm⟩
  · have hvalue := hread.other hcut hon hoff hunit
    rw [hsize hvalue]
    constructor
    · rintro ⟨hwhole, -⟩
      exact ⟨fun t ht => absurd ⟨t, ht⟩ hcut, fun _ => hwhole⟩
    · intro hmet
      exact ⟨hmet.other hcut, fun _ => hvalue⟩

/-- A string gives an option in KiB the size that it denotes, within bounds,
exactly under the condition. -/
theorem size_option_exact_iff (hgives : env.Gives desc s)
    (hkib : desc.sizeInKib = true) :
    SizeExact env desc s ↔ SizeMet env.useEnviron desc s := by
  have hinit := optionInit_of_gives hgives
  have hlength : s.upper.length = s.chars.length := List.length_map _
  have happly : ∀ text, (desc.apply text).sizeInKib = true := by
    intro text
    cases text <;> exact hkib
  rw [sizeExact_iff_agrees, hinit]
  unfold SizeMet wordOutcome textOutcome readText
  rw [hkib]
  by_cases hlen : s.chars.length ≤ 64
  · have hread : (if env.useEnviron then some (s.chars.take 64)
        else if 64 < s.chars.length then none else some s.chars) =
        some s.chars := by
      rw [List.take_of_length_le hlen, if_neg (not_lt.mpr hlen), ite_self]
    rw [if_pos hlen, hread]
    exact whole_agrees_iff (textRead_apply desc s.upper) (happly _)
  · rw [if_neg hlen]
    cases env.useEnviron with
    | true =>
      have hread := textRead_apply desc (s.upper.take 64)
      have hmap : (s.chars.take 64).map toupper = s.upper.take 64 :=
        List.map_take
      simp only [if_true, Option.map_some, hmap]
      exact cut_agrees_iff (by omega) hread (happly _) hkib
    | false =>
      have hnone : 64 < s.chars.length := not_le.mp hlen
      simp only [Bool.false_eq_true, if_false, hnone, if_true,
        Option.map_none]
      have hsize : ∀ init, OptionDesc.getSize { desc with init := init } =
          desc.getSize := fun _ => rfl
      rw [hkib] at hsize
      rw [hsize]
      exact and_iff_left fun _ => trivial

end Exact

/-! ## Three strings -/

/-- `reserve_os_memory`. -/
def reserveOption : OptionDesc :=
  { name := "reserve_os_memory".toList, legacyName := none,
    sizeInKib := true, value := 0, init := .uninit }

/-- A string of the option in an environment of its own. -/
def reserveEnvironment (s : CString) : Environment :=
  oneVariable (variableName reserveOption.name) s

def plainSize (digits : List Char) (unit : SizeUnit) (mark : BytesMark)
    (hne : digits ≠ []) (hdigits : ∀ c ∈ digits, c.isDigit = true) :
    SizeText :=
  ⟨[], .plain, digits, unit, mark, fun _ hc => absurd hc List.not_mem_nil,
    hne, hdigits⟩

theorem size_option_exact_iff_mib :
    SizeExact (reserveEnvironment ⟨"2MiB".toList, by decide⟩) reserveOption
      ⟨"2MiB".toList, by decide⟩ := by
  refine (size_option_exact_iff (oneVariable_gives reserveOption _ rfl)
    rfl).mpr ?_
  have hsize : IsSize "2MIB".toList :=
    ⟨plainSize ['2'] .mega .ib (by decide)
      (List.all_eq_true.mp (by decide)), rfl⟩
  refine (if_pos (by decide)).mpr
    ⟨?_, fun hnot => absurd hsize hnot, fun hnot => absurd hsize hnot⟩
  intro t ht
  have hkibs := (textRead_apply reserveOption "2MIB".toList).number t ht
  have hvalue : (reserveOption.apply
      (optionText true "2MIB".toList)).value = 2048 := by
    decide +kernel
  rw [hvalue] at hkibs
  have hmul := kibs_mul_kib t
  rw [show t.kibs = 2048 by exact_mod_cast hkibs.symm] at hmul
  split at hmul
  · exact absurd hmul (by decide)
  · left
    rw [← hmul]
    decide

/-- 300 TiB are more than `PA_MAX_ALLOC_SIZE`, but not so in KiB. -/
theorem size_option_unlimited :
    ¬ SizeExact (reserveEnvironment ⟨"300T".toList, by decide⟩) reserveOption
      ⟨"300T".toList, by decide⟩ := by
  intro hexact
  have hbounded := hexact.bounded
    (plainSize "300".toList .tera .none (by decide)
      (List.all_eq_true.mp (by decide))) rfl
  revert hbounded
  decide +kernel

end Palloc
