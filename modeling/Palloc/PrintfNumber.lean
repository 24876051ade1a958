import Palloc.Printf
import Mathlib.Data.Nat.Digits.Lemmas

/-!
# Numbers in the formatter's output

`pa_out_num` writes the digits of a number in reverse, then the sign, and
turns them around in place; the field is then filled on its right, and for an
alignment to the right the text is moved over the fill.  This file says what
text a field has, and when it is the padded number.
-/

namespace Palloc

open MachineWord

/-! ## Text -/

@[simp] theorem text_length (o : Output) : o.text.length = o.pos := by
  simp [Output.text]

theorem text_getElem (o : Output) {i : ℕ} (hi : i < o.text.length) :
    o.text[i] = o.mem i := by
  simp [Output.text]

theorem mem_of_text {o : Output} {s rest : List Char}
    (htext : o.text = s ++ rest) {i : ℕ} (hi : i < s.length) :
    o.mem i = s[i] := by
  have hlen : i < o.text.length := by
    rw [htext, List.length_append]
    omega
  rw [← text_getElem o hlen]
  simp only [htext]
  exact List.getElem_append_left hi

theorem text_eq_of_mem {o : Output} {s : List Char} (hpos : o.pos = s.length)
    (hmem : ∀ i (hi : i < s.length), o.mem i = s[i]) : o.text = s := by
  refine List.ext_getElem (by simp [hpos]) ?_
  intro i hi hs
  rw [text_getElem]
  exact hmem i hs

theorem put_text (o : Output) (c : Char) : (o.put c).text = o.text ++ [c] := by
  refine text_eq_of_mem (by simp) ?_
  intro i hi
  by_cases hlast : i < o.pos
  · rw [List.getElem_append_left (by simpa using hlast), text_getElem]
    simp [Output.put, Output.store, hlast.ne]
  · have heq : i = o.pos := by
      simp at hi
      omega
    subst heq
    simp [Output.put, Output.store]

theorem outs_text {stop : ℕ} (s : List Char) (o : Output) :
    (outs stop s o).text = o.text ++ s.take (stop - o.pos) := by
  induction s generalizing o with
  | nil => simp [outs]
  | cons c s ih =>
    rw [outs]
    split
    · next hpos =>
      have hroom : stop - o.pos = (stop - (o.put c).pos) + 1 := by
        rw [put_pos]
        omega
      rw [ih, put_text, hroom, List.take_succ_cons, List.append_assoc,
        List.singleton_append]
    · next hpos => simp [Nat.sub_eq_zero_of_le (Nat.le_of_not_lt hpos)]

theorem outc_text {stop : ℕ} {o : Output} (c : Char) (hpos : o.pos < stop) :
    (outc stop c o).text = o.text ++ [c] := by
  rw [outc, if_neg (Nat.not_le.mpr hpos), put_text]

theorem outFill_text {stop : ℕ} {fill : Char} {len : ℕ} {o : Output}
    (hroom : o.pos + len ≤ stop) :
    (outFill stop fill len o).text = o.text ++ List.replicate len fill := by
  induction len generalizing o with
  | zero => simp [outFill]
  | succ len ih =>
    have hpos : o.pos < stop := by omega
    have hrest : (o.put fill).pos + len ≤ stop := by
      rw [put_pos]
      omega
    rw [outFill, if_pos hpos, ih hrest, put_text, List.replicate_succ,
      List.append_assoc, List.singleton_append]

theorem outSign_text {stop : ℕ} {o : Output} (sign : Option Char)
    (hroom : o.pos + sign.toList.length ≤ stop) :
    (outSign stop sign o).text = o.text ++ sign.toList := by
  cases sign with
  | none => simp [outSign]
  | some c => exact outc_text c (by simpa using hroom)

/-! ## Loops on the memory -/

/-- After `n` rounds the last `n` characters are at their new places. -/
theorem moveRight_mem {start len extra n : ℕ} (hn : n ≤ len) (o : Output)
    (i : ℕ) :
    (moveRight start len extra n o).mem i =
      if start + (len + extra - n) ≤ i ∧ i < start + (len + extra) then
        o.mem (i - extra)
      else o.mem i := by
  induction n generalizing i with
  | zero => rw [moveRight, if_neg (by omega)]
  | succ n ih =>
    have hprev := ih (by omega)
    simp only [moveRight, Output.store]
    by_cases heq : i = start + (len + extra - (n + 1))
    · -- the character read was not overwritten by the rounds before
      have hread : start + (len - (n + 1)) = i - extra := by omega
      rw [heq, Function.update_self, ← heq, if_pos (by omega), hprev,
        if_neg (by omega), hread]
    · rw [Function.update_of_ne heq, hprev]
      congr 1
      simp only [eq_iff_iff]
      omega

theorem fillStart_mem (fill : Char) (start n : ℕ) (o : Output) (i : ℕ) :
    (fillStart fill start n o).mem i =
      if start ≤ i ∧ i < start + n then fill else o.mem i := by
  induction n with
  | zero => rw [fillStart, if_neg (by omega)]
  | succ n ih =>
    simp only [fillStart, Output.store]
    by_cases heq : i = start + n
    · rw [heq, Function.update_self, if_pos (by omega)]
    · rw [Function.update_of_ne heq, ih]
      congr 1
      simp only [eq_iff_iff]
      omega

/-- After `n` rounds the first and the last `n` characters are exchanged. -/
theorem reverseLoop_mem {start len n : ℕ} (hn : n ≤ len / 2) (o : Output)
    (i : ℕ) :
    (reverseLoop start len n o).mem i =
      if (start ≤ i ∧ i < start + n) ∨
          (start + (len - n) ≤ i ∧ i < start + len) then
        o.mem (start + (len - 1 - (i - start)))
      else o.mem i := by
  induction n generalizing i with
  | zero => rw [reverseLoop, if_neg (by omega)]
  | succ n ih =>
    have hprev := ih (by omega)
    simp only [reverseLoop, Output.store]
    by_cases hfirst : i = start + n
    · have hread : start + (len - n - 1) = start + (len - 1 - (i - start)) := by
        omega
      rw [hfirst, Function.update_self, ← hfirst, if_pos (by omega), hprev,
        if_neg (by omega), hread]
    · rw [Function.update_of_ne hfirst]
      by_cases hlast : i = start + (len - n - 1)
      · have hread : start + n = start + (len - 1 - (i - start)) := by omega
        rw [hlast, Function.update_self, ← hlast, if_pos (by omega), hprev,
          if_neg (by omega), hread]
      · rw [Function.update_of_ne hlast, hprev]
        congr 1
        simp only [eq_iff_iff]
        omega

theorem reverseLoop_text {o : Output} {first second : List Char}
    (htext : o.text = first ++ second) :
    (reverseLoop first.length second.length (second.length / 2) o).text =
      first ++ second.reverse := by
  have hpos : o.pos = first.length + second.length := by
    rw [← text_length o, htext, List.length_append]
  have hmem : ∀ i (hi : i < (first ++ second).length),
      o.mem i = (first ++ second)[i] := fun i hi =>
    mem_of_text (htext.trans (List.append_nil _).symm) hi
  refine text_eq_of_mem (by simp [hpos]) ?_
  intro i hi
  simp only [List.length_append, List.length_reverse] at hi
  rw [reverseLoop_mem le_rfl]
  by_cases hfirst : i < first.length
  · rw [if_neg (by omega), hmem i (by simp; omega),
      List.getElem_append_left hfirst, List.getElem_append_left hfirst]
  · have hread : (if (first.length ≤ i ∧
            i < first.length + second.length / 2) ∨
          (first.length + (second.length - second.length / 2) ≤ i ∧
            i < first.length + second.length) then
        o.mem (first.length + (second.length - 1 - (i - first.length)))
        else o.mem i) =
        o.mem (first.length + (second.length - 1 - (i - first.length))) := by
      split
      · rfl
      · congr 1
        omega
    rw [hread, hmem _ (by simp; omega),
      List.getElem_append_right (by omega),
      List.getElem_append_right (by omega), List.getElem_reverse]
    congr 1
    omega

/-- The text from `start` on is moved over the fill behind it. -/
theorem outAlignright_text {stop : ℕ} {o : Output} {fill : Char}
    {first second : List Char} {extra : ℕ}
    (htext : o.text = first ++ (second ++ List.replicate extra fill))
    (hsecond : 0 < second.length) :
    (outAlignright stop fill first.length second.length extra o).text =
      if first.length + second.length + extra < stop then
        first ++ (List.replicate extra fill ++ second)
      else o.text := by
  have hpos : o.pos = first.length + (second.length + extra) := by
    rw [← text_length o, htext]
    simp
  unfold outAlignright
  split
  · next hnone =>
    have hextra : extra = 0 := by omega
    simp [htext, hextra]
  · split
    · next hroom => rw [if_neg (by omega)]
    · next hroom =>
      rw [if_pos (by omega)]
      have hmem : ∀ i (hi : i < (first ++ second).length),
          o.mem i = (first ++ second)[i] := fun i hi =>
        mem_of_text (htext.trans (List.append_assoc _ _ _).symm) hi
      refine text_eq_of_mem (by simp [hpos, Nat.add_comm]) ?_
      intro i hi
      simp only [List.length_append, List.length_replicate] at hi
      rw [fillStart_mem]
      by_cases hfirst : i < first.length
      · rw [if_neg (by omega), moveRight_mem le_rfl, if_neg (by omega),
          hmem i (by simp; omega), List.getElem_append_left hfirst,
          List.getElem_append_left hfirst]
      · rw [List.getElem_append_right (by omega)]
        by_cases hfill : i < first.length + extra
        · rw [if_pos (by omega), List.getElem_append_left (by simp; omega),
            List.getElem_replicate]
        · rw [if_neg (by omega), moveRight_mem le_rfl, if_pos (by omega),
            hmem _ (by simp; omega), List.getElem_append_right (by omega),
            List.getElem_append_right (by simp; omega)]
          congr 1
          simp
          omega

/-! ## Numbers -/

/-- The digits of a number, the most significant one first. -/
def numeral (base x : ℕ) : List Char :=
  if x = 0 then ['0'] else ((Nat.digits base x).map digitChar).reverse

/-- A text in a field: to the right or to the left of the fill. -/
def padded (alignright : Bool) (fill : Char) (width : ℕ) (text : List Char) :
    List Char :=
  if alignright then List.replicate (width - text.length) fill ++ text
  else text ++ List.replicate (width - text.length) fill

theorem outDigits_text {stop base x : ℕ} (hbase : 1 < base) {o : Output}
    (hroom : o.pos + (Nat.digits base x).length ≤ stop) :
    (outDigits stop base x o).text =
      o.text ++ (Nat.digits base x).map digitChar := by
  induction x, o using outDigits.induct stop base with
  | case1 x o hstop =>
    have hx : x = 0 := by omega
    rw [outDigits, if_pos hstop, hx]
    simp
  | case2 x o hstop ih =>
    have hx : 0 < x := by omega
    have hdigits := Nat.digits_def' hbase hx
    rw [hdigits, List.length_cons] at hroom
    have hput := outc_text (digitChar (x % base))
      (show o.pos < stop by omega)
    have hpos : (outc stop (digitChar (x % base)) o).pos = o.pos + 1 := by
      rw [← text_length, hput]
      simp
    rw [outDigits, if_neg hstop, ih (by omega), hput, hdigits]
    simp

theorem outNum_text {stop x base : ℕ} (hbase : 1 < base ∧ base ≤ 16)
    (sign : Option Char) {o : Output}
    (hroom : o.pos + (sign.toList ++ numeral base x).length ≤ stop) :
    (outNum stop x base sign o).text =
      o.text ++ (sign.toList ++ numeral base x) := by
  rw [List.length_append] at hroom
  unfold outNum
  by_cases hx : x = 0
  · rw [if_pos (Or.inl hx)]
    simp only [numeral, hx, if_true, List.length_singleton] at hroom ⊢
    have hsign := @outSign_text stop o sign (by omega)
    have hpos : (outSign stop sign o).pos = o.pos + sign.toList.length := by
      rw [← text_length, hsign]
      simp
    rw [outc_text '0' (by omega), hsign, List.append_assoc]
  · rw [if_neg (by omega)]
    simp only [numeral, if_neg hx, List.length_reverse, List.length_map]
      at hroom ⊢
    have hdigits := outDigits_text hbase.1
      (show o.pos + (Nat.digits base x).length ≤ stop by omega)
    have hpos : (outDigits stop base x o).pos =
        o.pos + (Nat.digits base x).length := by
      rw [← text_length, hdigits]
      simp
    have hsign : (outSign stop sign (outDigits stop base x o)).text =
        o.text ++ ((Nat.digits base x).map digitChar ++ sign.toList) := by
      rw [outSign_text sign (by omega), hdigits, List.append_assoc]
    have hlen : (outSign stop sign (outDigits stop base x o)).pos - o.pos =
        ((Nat.digits base x).map digitChar ++ sign.toList).length := by
      rw [← text_length (outSign stop sign _), hsign, List.length_append,
        text_length]
      omega
    have hreverse := reverseLoop_text hsign
    rw [text_length] at hreverse
    rw [hlen, hreverse, List.reverse_append]
    cases sign <;> rfl

/-! ## Fields -/

theorem append_replicate_eq_iff {text : List Char} {fill : Char} {n : ℕ}
    (hn : 0 < n) :
    text ++ List.replicate n fill = List.replicate n fill ++ text ↔
      ∀ c ∈ text, c = fill := by
  obtain ⟨m, rfl⟩ : ∃ m, n = m + 1 := ⟨n - 1, by omega⟩
  induction text with
  | nil => simp
  | cons c text ih =>
    have hmove : List.replicate (m + 1) fill ++ c :: text =
        fill :: (List.replicate m fill ++ c :: text) := rfl
    have hback : List.replicate m fill ++ fill :: text =
        List.replicate (m + 1) fill ++ text := by
      rw [List.replicate_succ', List.append_assoc, List.singleton_append]
    rw [List.cons_append, hmove, List.cons.injEq, List.forall_mem_cons]
    constructor
    · rintro ⟨rfl, htail⟩
      rw [hback] at htail
      exact ⟨rfl, ih.mp htail⟩
    · rintro ⟨rfl, htail⟩
      exact ⟨rfl, by rw [hback, ih.mpr htail]⟩

/-- A field that fits: the text is moved over the fill only when a place is
left behind the field. -/
theorem fillAlign_text {stop : ℕ} {alignright : Bool} {field : Field}
    {first second : List Char} (htext : field.out.text = first ++ second)
    (hstart : field.start = first.length) (hsecond : second ≠ [])
    (hroom : first.length + max field.width second.length ≤ stop) :
    (fillAlign stop alignright field).text = first ++
      padded (alignright && decide (first.length + field.width < stop))
        field.fill field.width second := by
  have hpos : field.out.pos = first.length + second.length := by
    rw [← text_length, htext, List.length_append]
  have hlen : field.out.pos - first.length = second.length := by omega
  have hsecondPos : 0 < second.length := List.length_pos_iff.mpr hsecond
  unfold fillAlign padded
  simp only [hstart, hlen]
  by_cases hwidth : second.length < field.width
  · have hfill : (outFill stop field.fill (field.width - second.length)
        field.out).text = first ++ (second ++
          List.replicate (field.width - second.length) field.fill) := by
      rw [outFill_text (by omega), htext, List.append_assoc]
    have hfillPos : (outFill stop field.fill (field.width - second.length)
        field.out).pos ≤ stop := by
      rw [← text_length, hfill]
      simp
      omega
    rw [if_pos hwidth]
    cases alignright with
    | false => simp [hfill]
    | true =>
      simp only [hfillPos, and_self, if_true, Bool.true_and]
      rw [outAlignright_text hfill hsecondPos]
      by_cases hplace : first.length + field.width < stop
      · rw [if_pos (by omega), if_pos (by simpa using hplace)]
      · rw [if_neg (by omega), if_neg (by simpa using hplace), hfill]
  · have hnone : field.width - second.length = 0 := by omega
    rw [if_neg hwidth, hnone, htext]
    simp

/-! ## Number conversions -/

/-- A number as a conversion writes it: what stands before the field, the
sign, the base, the number, and the width and the fill of the field. -/
structure NumberField where
  lead : List Char
  sign : Option Char
  base : ℕ
  value : ℕ
  width : ℕ
  fill : Char

def NumberField.text (n : NumberField) : List Char :=
  n.sign.toList ++ numeral n.base n.value

/-- The number that a conversion denotes for an argument. -/
def Conversion.number (conv : Conversion) (x : BitVec 64) : NumberField :=
  if conv.char = 'i' ∨ conv.char = 'd' then
    let value := signedValue conv.numtype x
    { lead := []
      sign := if value < 0 then some '-' else conv.numplus
      base := 10
      value := value.natAbs
      width := conv.width
      fill := conv.fill }
  else if conv.char = 'p' then
    let value := unsignedValue 'z' x
    { lead := ['0', 'x']
      sign := conv.numplus
      base := 16
      value := value
      width := (hexWidth conv (conv.width - 2) value).1
      fill := (hexWidth conv (conv.width - 2) value).2 }
  else
    let value := unsignedValue conv.numtype x
    { lead := []
      sign := conv.numplus
      base := if conv.char = 'x' then 16 else 10
      value := value
      width := (hexWidth conv conv.width value).1
      fill := (hexWidth conv conv.width value).2 }

def Conversion.IsNumber (conv : Conversion) : Prop :=
  conv.char ∈ ['p', 'x', 'u', 'i', 'd']

instance (conv : Conversion) : Decidable conv.IsNumber :=
  inferInstanceAs (Decidable (conv.char ∈ ['p', 'x', 'u', 'i', 'd']))

/-- The text of a number conversion is the number, padded as it says. -/
def NumberExact (stop : ℕ) (conv : Conversion) (args : List FormatArg)
    (o : Output) : Prop :=
  let n := conv.number (nextWord args).1
  (fillAlign stop conv.alignright (outConversion stop conv args o).1).text =
    o.text ++ n.lead ++ padded conv.alignright n.fill n.width n.text

/-- The text is aligned to the left, or needs no fill, or a place is left
behind the field, or the text is made of the fill. -/
def AlignPossible (stop : ℕ) (alignright : Bool) (n : NumberField)
    (o : Output) : Prop :=
  alignright = false ∨ n.width ≤ n.text.length ∨
    o.pos + n.lead.length + n.width < stop ∨ ∀ c ∈ n.text, c = n.fill

theorem signedValue_bounds (numtype : Char) (x : BitVec 64) :
    - 2 ^ 63 ≤ signedValue numtype x ∧ signedValue numtype x < 2 ^ 63 := by
  unfold signedValue
  split
  · have hlow := BitVec.le_toInt x
    have hhigh := @BitVec.toInt_lt 64 x
    omega
  · have hlow := BitVec.le_toInt (x.setWidth 32)
    have hhigh := @BitVec.toInt_lt 32 (x.setWidth 32)
    omega

/-- `pa_out_num` gets the magnitude of the number, for `INTMAX_MIN` too. -/
theorem signOf_eq {x : ℤ} (hlow : - 2 ^ 63 ≤ x) (hhigh : x < 2 ^ 63)
    (numplus : Option Char) :
    signOf numplus x = (if x < 0 then some '-' else numplus, x.natAbs) := by
  have hword : (wordSize : ℤ) = 2 ^ 64 := by decide
  have hmin : intmaxMin = - 2 ^ 63 := rfl
  unfold signOf
  rw [hword, hmin]
  simp only [Prod.mk.injEq, true_and]
  split
  · omega
  · omega

theorem outConversion_number {stop : ℕ} {conv : Conversion}
    (hnumber : conv.IsNumber) (args : List FormatArg) (o : Output) :
    let n := conv.number (nextWord args).1
    let lead := outs stop n.lead o
    (outConversion stop conv args o).1 =
      ⟨outNum stop n.value n.base n.sign lead, lead.pos, n.width, n.fill⟩ := by
  have hchar : conv.char = 'p' ∨ conv.char = 'x' ∨ conv.char = 'u' ∨
      conv.char = 'i' ∨ conv.char = 'd' := by
    simpa [Conversion.IsNumber] using hnumber
  have hsub : (if 2 ≤ conv.width then conv.width - 2 else 0) =
      conv.width - 2 := by
    split <;> omega
  obtain ⟨hlow, hhigh⟩ :=
    signedValue_bounds conv.numtype (nextWord args).1
  rcases hchar with hc | hc | hc | hc | hc
  · simp [outConversion, Conversion.number, outUnsigned, hc, hsub]
  · simp [outConversion, Conversion.number, outUnsigned, hc, outs]
  · simp [outConversion, Conversion.number, outUnsigned, hc, outs]
  · simp [outConversion, Conversion.number, outSigned, hc, outs,
      signOf_eq hlow hhigh]
  · simp [outConversion, Conversion.number, outSigned, hc, outs,
      signOf_eq hlow hhigh]

theorem number_base (conv : Conversion) (x : BitVec 64) :
    1 < (conv.number x).base ∧ (conv.number x).base ≤ 16 := by
  unfold Conversion.number
  dsimp only
  split
  · simp
  · split
    · simp
    · dsimp only
      split <;> simp

theorem numeral_ne_nil (base x : ℕ) : numeral base x ≠ [] := by
  unfold numeral
  split
  · simp
  · next hx =>
    have hdigits : Nat.digits base x ≠ [] :=
      Nat.digits_ne_nil_iff_ne_zero.mpr hx
    simpa using hdigits

/-- A text that stays on the left is the padded text in these cases. -/
theorem padded_eq_iff (alignright : Bool) (fill : Char) (width : ℕ)
    (text : List Char) (place : Prop) [Decidable place] :
    padded (alignright && decide place) fill width text =
        padded alignright fill width text ↔
      alignright = false ∨ width ≤ text.length ∨ place ∨
        ∀ c ∈ text, c = fill := by
  cases alignright with
  | false => simp
  | true =>
    by_cases hplace : place
    · simp [hplace]
    · by_cases hwidth : width ≤ text.length
      · simp [padded, hplace, hwidth]
      · have hcommute := @append_replicate_eq_iff text fill
          (width - text.length) (by omega)
        simpa [padded, hplace, hwidth] using hcommute

/-- A number whose field fits in the buffer is formatted faithfully exactly
when it can be aligned. -/
theorem number_exact_iff {stop : ℕ} {conv : Conversion} {o : Output}
    (hnumber : conv.IsNumber) (args : List FormatArg)
    (hfits : o.pos + (conv.number (nextWord args).1).lead.length +
      max (conv.number (nextWord args).1).width
        (conv.number (nextWord args).1).text.length ≤ stop) :
    NumberExact stop conv args o ↔
      AlignPossible stop conv.alignright (conv.number (nextWord args).1) o := by
  have hfield := @outConversion_number stop conv hnumber args o
  have hbase := number_base conv (nextWord args).1
  unfold NumberExact AlignPossible
  revert hfits hfield hbase
  generalize conv.number (nextWord args).1 = n
  intro hfits hfield hbase
  have hlead : (outs stop n.lead o).text = o.text ++ n.lead := by
    rw [outs_text, List.take_of_length_le (by omega)]
  have hpos : (outs stop n.lead o).pos = o.pos + n.lead.length := by
    rw [← text_length, hlead, List.length_append, text_length]
  have hfirst : (o.text ++ n.lead).length = o.pos + n.lead.length := by
    rw [List.length_append, text_length]
  have hnum := @outNum_text stop n.value n.base hbase n.sign
    (outs stop n.lead o) (by
      rw [hpos]
      exact le_trans (by gcongr; exact le_max_right _ _) hfits)
  rw [hlead] at hnum
  have hne : n.text ≠ [] := by
    simp [NumberField.text, numeral_ne_nil]
  dsimp only at hfield ⊢
  rw [hfield, @fillAlign_text stop conv.alignright
    ⟨outNum stop n.value n.base n.sign (outs stop n.lead o),
      (outs stop n.lead o).pos, n.width, n.fill⟩ (o.text ++ n.lead) n.text
    hnum (by rw [hpos, hfirst]) hne (by rwa [hfirst])]
  rw [List.append_cancel_left_eq, padded_eq_iff, hfirst]

/-- The number seven in three places of five. -/
theorem number_exact_iff_seven :
    NumberExact 5 ⟨none, true, '0', 3, 'd', 'd'⟩ [.word 7]
        (Output.init fun _ => '\x00') ↔
      AlignPossible 5 true
        ((⟨none, true, '0', 3, 'd', 'd'⟩ : Conversion).number 7)
        (Output.init fun _ => '\x00') :=
  number_exact_iff (by decide) [.word 7] (by decide +kernel)

/-- `%3d` in a buffer of four characters: the field and its terminator fill
the buffer, and the number stays on the left. -/
theorem number_left_in_full_buffer :
    readConversion ['3', 'd'] = some (⟨none, true, ' ', 3, 'd', 'd'⟩, []) ∧
      (printed (fun _ => '\x00') 3 ['%', '3', 'd'] [.word 7]).text =
        ['7', ' ', ' '] ∧
      ¬ NumberExact 3 ⟨none, true, ' ', 3, 'd', 'd'⟩ [.word 7]
        ((Output.init fun _ => '\x00').store 3 '\x00') := by
  refine ⟨rfl, by decide +kernel, ?_⟩
  unfold NumberExact
  decide +kernel

end Palloc