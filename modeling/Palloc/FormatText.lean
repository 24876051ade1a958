import Palloc.PrintfNumber

/-!
# The text of a format

A format whose conversions have no width stands for a text: its visible
characters, with the strings and the numbers of the arguments in their
places.  In a buffer with room for it, the formatter writes this text.
-/

namespace Palloc

inductive Formats : List Char → List FormatArg → List Char → Prop where
  | nil (args : List FormatArg) : Formats [] args []
  | literal {c : Char} {fmt text : List Char} {args : List FormatArg}
      (hc : c ≠ '%') (hliteral : isLiteral c = true) :
      Formats fmt args text → Formats (c :: fmt) args (c :: text)
  | string {rest after text : List Char} {conv : Conversion} {s : CString}
      {args : List FormatArg}
      (hread : readConversion rest = some (conv, after))
      (hchar : conv.char = 's') (hwidth : conv.width = 0) :
      Formats after args text →
        Formats ('%' :: rest) (.string (some s) :: args) (s.chars ++ text)
  | number {rest after text : List Char} {conv : Conversion} {x : BitVec 64}
      {args : List FormatArg}
      (hread : readConversion rest = some (conv, after))
      (hchar : conv.char = 'd' ∨ conv.char = 'u') (hwidth : conv.width = 0) :
      Formats after args text →
        Formats ('%' :: rest) (.word x :: args) ((conv.number x).text ++ text)

theorem fillAlign_zero {stop : ℕ} {alignright : Bool} {field : Field}
    (hwidth : field.width = 0) :
    fillAlign stop alignright field = field.out := by
  unfold fillAlign
  dsimp only
  rw [if_neg (by omega)]

theorem number_plain {conv : Conversion} (x : BitVec 64)
    (hchar : conv.char = 'd' ∨ conv.char = 'u') (hwidth : conv.width = 0) :
    (conv.number x).lead = [] ∧ (conv.number x).width = 0 := by
  rcases hchar with hchar | hchar
  · simp [Conversion.number, hchar, hwidth]
  · simp [Conversion.number, hexWidth, hchar, hwidth]

variable {stop : ℕ} {fmt text : List Char} {args : List FormatArg}

theorem Formats.loop_text (hformats : Formats fmt args text) {o : Output}
    (hroom : o.pos + text.length ≤ stop) :
    (vsnprintfLoop stop fmt args o).text = o.text ++ text := by
  induction hformats generalizing o with
  | nil args => rw [vsnprintfLoop_nil, List.append_nil]
  | @literal c fmt text args hc hliteral _ ih =>
    rw [List.length_cons] at hroom
    have hpos : o.pos < stop := by omega
    have hput := outc_text c hpos
    have hnext : (outc stop c o).pos = o.pos + 1 := by
      rw [← text_length, hput]
      simp
    rw [vsnprintfLoop_literal hpos hc, outLiteral, if_pos hliteral,
      ih (by omega), hput]
    simp
  | @string rest after text conv s args hread hchar hwidth _ ih =>
    rw [List.length_append] at hroom
    have hput : (outs stop s.chars o).text = o.text ++ s.chars := by
      rw [outs_text, List.take_of_length_le (by omega)]
    have hnext : (outs stop s.chars o).pos = o.pos + s.chars.length := by
      rw [← text_length, hput, List.length_append, text_length]
    by_cases hpos : o.pos < stop
    · have hfield : outConversion stop conv (.string (some s) :: args) o =
          (⟨outs stop s.chars o, o.pos, conv.width, conv.fill⟩, args) := by
        simp [outConversion, hchar, nextString]
      rw [vsnprintfLoop_conversion hpos hread, hfield, fillAlign_zero hwidth,
        ih (by dsimp only; omega), hput, List.append_assoc]
    · have hempty : s.chars ++ text = [] := by
        apply List.eq_nil_of_length_eq_zero
        rw [List.length_append]
        omega
      rw [vsnprintfLoop_full _ _ (by omega), hempty, List.append_nil]
  | @number rest after text conv x args hread hchar hwidth _ ih =>
    rw [List.length_append] at hroom
    obtain ⟨hlead, hnumberWidth⟩ := number_plain x hchar hwidth
    have hput : (outNum stop (conv.number x).value (conv.number x).base
        (conv.number x).sign o).text = o.text ++ (conv.number x).text :=
      outNum_text (number_base conv x) _ (by
        change o.pos + (conv.number x).text.length ≤ stop
        omega)
    have hnext : (outNum stop (conv.number x).value (conv.number x).base
        (conv.number x).sign o).pos =
        o.pos + (conv.number x).text.length := by
      rw [← text_length, hput, List.length_append, text_length]
    by_cases hpos : o.pos < stop
    · have hnumber : conv.IsNumber := by
        rcases hchar with hchar | hchar <;>
          simp [Conversion.IsNumber, hchar]
      have hfield := @outConversion_number stop conv hnumber
        (.word x :: args) o
      simp only [nextWord, hlead, outs] at hfield
      have hargs : (outConversion stop conv (.word x :: args) o).2 = args := by
        rcases hchar with hchar | hchar <;>
          simp [outConversion, hchar, nextWord]
      rw [vsnprintfLoop_conversion hpos hread, hargs, hfield,
        fillAlign_zero hnumberWidth, ih (by dsimp only; omega), hput,
        List.append_assoc]
    · have hempty : (conv.number x).text ++ text = [] := by
        apply List.eq_nil_of_length_eq_zero
        rw [List.length_append]
        omega
      rw [vsnprintfLoop_full _ _ (by omega), hempty, List.append_nil]

theorem Formats.literals {letters : List Char}
    (hletters : ∀ c ∈ letters, c ≠ '%' ∧ isLiteral c = true)
    (hformats : Formats fmt args text) :
    Formats (letters ++ fmt) args (letters ++ text) := by
  induction letters with
  | nil => exact hformats
  | cons c letters ih =>
    rw [List.forall_mem_cons] at hletters
    exact .literal hletters.1.1 hletters.1.2 (ih hletters.2)

theorem Formats.printed_text (hformats : Formats fmt args text)
    (hroom : text.length ≤ stop) (mem : ℕ → Char) :
    (printed mem stop fmt args).text = text := by
  have hinit : ((Output.init mem).store stop '\x00').text = [] := rfl
  unfold printed
  rw [hformats.loop_text (by simpa [Output.init] using hroom), hinit,
    List.nil_append]

theorem printed_length (mem : ℕ → Char) (stop : ℕ) (fmt : List Char)
    (args : List FormatArg) :
    (printed mem stop fmt args).text.length ≤ stop := by
  rw [text_length]
  exact (printed_within mem stop fmt args).pos_le

/-! ## Numerals -/

theorem decimal_append (digits : List Char) (c : Char) :
    decimal (digits ++ [c]) =
      10 * decimal digits + (c.toNat - '0'.toNat) := by
  simp [decimal]

theorem digitChar_toNat {digit : ℕ} (hdigit : digit < 10) :
    (digitChar digit).toNat - '0'.toNat = digit ∧
      (digitChar digit).isDigit = true ∧
      (digit ≠ 0 → digitChar digit ≠ '0') := by
  revert digit
  decide

theorem decimal_digits {digits : List ℕ}
    (hdigits : ∀ digit ∈ digits, digit < 10) :
    decimal (digits.map digitChar).reverse = Nat.ofDigits 10 digits := by
  induction digits with
  | nil => rfl
  | cons digit digits ih =>
    rw [List.forall_mem_cons] at hdigits
    rw [List.map_cons, List.reverse_cons, decimal_append, ih hdigits.2,
      (digitChar_toNat hdigits.1).1, Nat.ofDigits_cons]
    omega

theorem decimal_numeral (x : ℕ) : decimal (numeral 10 x) = x := by
  unfold numeral
  split
  · next hx =>
    rw [hx]
    decide
  · have hdigits : ∀ digit ∈ Nat.digits 10 x, digit < 10 :=
      fun digit hdigit => Nat.digits_lt_base (by decide) hdigit
    rw [decimal_digits hdigits, Nat.ofDigits_digits]

structure IsNumeral (digits : List Char) : Prop where
  ne_nil : digits ≠ []
  isDigit : ∀ c ∈ digits, c.isDigit = true
  noZero : digits = ['0'] ∨ digits.head? ≠ some '0'

theorem numeral_isNumeral (x : ℕ) : IsNumeral (numeral 10 x) := by
  refine ⟨numeral_ne_nil 10 x, ?_, ?_⟩
  · intro c hc
    unfold numeral at hc
    split at hc
    · simp at hc
      rw [hc]
      decide
    · rw [List.mem_reverse, List.mem_map] at hc
      obtain ⟨digit, hdigit, rfl⟩ := hc
      exact (digitChar_toNat (Nat.digits_lt_base (by decide) hdigit)).2.1
  · unfold numeral
    split
    · exact Or.inl rfl
    · next hx =>
      right
      have hne : Nat.digits 10 x ≠ [] := Nat.digits_ne_nil_iff_ne_zero.mpr hx
      have hlast := Nat.getLast_digit_ne_zero 10 hx
      have hlt : (Nat.digits 10 x).getLast hne < 10 :=
        Nat.digits_lt_base (by decide) (List.getLast_mem hne)
      rw [List.head?_reverse, List.getLast?_map,
        List.getLast?_eq_some_getLast hne, Option.map_some]
      intro heq
      exact (digitChar_toNat hlt).2.2 hlast (Option.some.inj heq)

end Palloc
