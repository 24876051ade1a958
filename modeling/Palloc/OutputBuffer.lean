import Mathlib.Data.Nat.Digits.Defs
import Mathlib.Logic.Function.Basic

/-!
# Writing characters into a buffer

The helpers of `_pa_vsnprintf` move a cursor through a buffer up to `end`, the
place of the last character.  The state is the memory behind the buffer, the
cursor, and the places that were written, all as offsets from the start.
Offsets do not wrap, as a field is less than `2^31` characters wide.
-/

namespace Palloc

structure Output where
  mem : ℕ → Char
  written : List ℕ
  pos : ℕ

def Output.store (o : Output) (i : ℕ) (c : Char) : Output :=
  { o with mem := Function.update o.mem i c, written := i :: o.written }

/-- `*p++ = c`. -/
def Output.put (o : Output) (c : Char) : Output :=
  { o.store o.pos c with pos := o.pos + 1 }

def Output.text (o : Output) : List Char := (List.range o.pos).map o.mem

/-! ## The helpers -/

/-- `pa_outc`. -/
def outc (stop : ℕ) (c : Char) (o : Output) : Output :=
  if stop ≤ o.pos then o else o.put c

/-- `pa_outs`. -/
def outs (stop : ℕ) : List Char → Output → Output
  | [], o => o
  | c :: s, o => if o.pos < stop then outs stop s (o.put c) else o

/-- `pa_out_fill`. -/
def outFill (stop : ℕ) (fill : Char) : ℕ → Output → Output
  | 0, o => o
  | len + 1, o =>
    if o.pos < stop then outFill stop fill len (o.put fill) else o

/-- The first `n` rounds of the loop that moves `len` characters to the
right, from the last one on. -/
def moveRight (start len extra : ℕ) : ℕ → Output → Output
  | 0, o => o
  | n + 1, o =>
    let o := moveRight start len extra n o
    o.store (start + (len + extra - (n + 1)))
      (o.mem (start + (len - (n + 1))))

/-- The first `n` rounds of the loop that fills the start. -/
def fillStart (fill : Char) (start : ℕ) : ℕ → Output → Output
  | 0, o => o
  | n + 1, o => (fillStart fill start n o).store (start + n) fill

/-- `pa_out_alignright`. -/
def outAlignright (stop : ℕ) (fill : Char) (start len extra : ℕ)
    (o : Output) : Output :=
  if len = 0 ∨ extra = 0 then o
  else if stop ≤ start + len + extra then o
  else fillStart fill start extra (moveRight start len extra len o)

def digitChar (digit : ℕ) : Char :=
  if digit ≤ 9 then Char.ofNat ('0'.toNat + digit)
  else Char.ofNat ('A'.toNat + digit - 10)

/-- The digits in reverse.  (The loop has no end when `base` is one.) -/
def outDigits (stop base x : ℕ) (o : Output) : Output :=
  if x = 0 ∨ base ≤ 1 then o
  else outDigits stop base (x / base) (outc stop (digitChar (x % base)) o)
termination_by x
decreasing_by
  next h =>
    push Not at h
    exact Nat.div_lt_self (Nat.pos_of_ne_zero h.1) h.2

/-- The first `n` rounds of the loop that reverses `len` characters. -/
def reverseLoop (start len : ℕ) : ℕ → Output → Output
  | 0, o => o
  | n + 1, o =>
    let o := reverseLoop start len n o
    let c := o.mem (start + (len - n - 1))
    (o.store (start + (len - n - 1)) (o.mem (start + n))).store (start + n) c

def outSign (stop : ℕ) (sign : Option Char) (o : Output) : Output :=
  match sign with
  | some c => outc stop c o
  | none => o

/-- `pa_out_num`. -/
def outNum (stop x base : ℕ) (sign : Option Char) (o : Output) : Output :=
  if x = 0 ∨ base = 0 ∨ 16 < base then outc stop '0' (outSign stop sign o)
  else
    let start := o.pos
    let o := outSign stop sign (outDigits stop base x o)
    let len := o.pos - start
    reverseLoop start len (len / 2) o

/-! ## The cursor -/

@[simp] theorem store_pos (o : Output) (i : ℕ) (c : Char) :
    (o.store i c).pos = o.pos := rfl

@[simp] theorem put_pos (o : Output) (c : Char) :
    (o.put c).pos = o.pos + 1 := rfl

@[simp] theorem moveRight_pos (start len extra n : ℕ) (o : Output) :
    (moveRight start len extra n o).pos = o.pos := by
  induction n with
  | zero => rfl
  | succ n ih => simp [moveRight, ih]

@[simp] theorem fillStart_pos (fill : Char) (start n : ℕ) (o : Output) :
    (fillStart fill start n o).pos = o.pos := by
  induction n with
  | zero => rfl
  | succ n ih => simp [fillStart, ih]

@[simp] theorem outAlignright_pos (stop : ℕ) (fill : Char)
    (start len extra : ℕ) (o : Output) :
    (outAlignright stop fill start len extra o).pos = o.pos := by
  unfold outAlignright
  split
  · rfl
  · split <;> simp

@[simp] theorem reverseLoop_pos (start len n : ℕ) (o : Output) :
    (reverseLoop start len n o).pos = o.pos := by
  induction n with
  | zero => rfl
  | succ n ih => simp [reverseLoop, ih]

theorem le_outc_pos (stop : ℕ) (c : Char) (o : Output) :
    o.pos ≤ (outc stop c o).pos := by
  unfold outc
  split
  · rfl
  · simp

theorem le_outs_pos (stop : ℕ) (s : List Char) (o : Output) :
    o.pos ≤ (outs stop s o).pos := by
  induction s generalizing o with
  | nil => rfl
  | cons c s ih =>
    rw [outs]
    split
    · exact (Nat.le_succ _).trans (ih (o.put c))
    · rfl

theorem le_outDigits_pos (stop base x : ℕ) (o : Output) :
    o.pos ≤ (outDigits stop base x o).pos := by
  induction x, o using outDigits.induct stop base with
  | case1 x o hstop => rw [outDigits, if_pos hstop]
  | case2 x o hstop ih =>
    rw [outDigits, if_neg hstop]
    exact (le_outc_pos stop _ o).trans ih

theorem le_outSign_pos (stop : ℕ) (sign : Option Char) (o : Output) :
    o.pos ≤ (outSign stop sign o).pos := by
  cases sign with
  | none => rfl
  | some c => exact le_outc_pos stop c o

theorem le_outNum_pos (stop x base : ℕ) (sign : Option Char) (o : Output) :
    o.pos ≤ (outNum stop x base sign o).pos := by
  unfold outNum
  split
  · exact (le_outSign_pos stop sign o).trans (le_outc_pos stop '0' _)
  · rw [reverseLoop_pos]
    exact (le_outDigits_pos stop base x o).trans (le_outSign_pos stop sign _)

/-! ## Bounds -/

structure Output.Within (mem : ℕ → Char) (stop : ℕ) (o : Output) :
    Prop where
  pos_le : o.pos ≤ stop
  written_le : ∀ i ∈ o.written, i ≤ stop
  noNul : ∀ i < o.pos, o.mem i ≠ '\x00'
  frame : ∀ i, i ∉ o.written → o.mem i = mem i

variable {mem : ℕ → Char} {stop : ℕ} {o : Output}

theorem Output.Within.store (hwithin : o.Within mem stop) {i : ℕ} {c : Char}
    (hi : i ≤ stop) (hc : i < o.pos → c ≠ '\x00') :
    (o.store i c).Within mem stop := by
  refine ⟨hwithin.pos_le, ?_, ?_, ?_⟩
  · intro j hj
    rcases List.mem_cons.mp hj with rfl | hj
    · exact hi
    · exact hwithin.written_le j hj
  · intro j hj
    by_cases hji : j = i
    · subst hji
      simpa [Output.store] using hc hj
    · simpa [Output.store, hji] using hwithin.noNul j hj
  · intro j hj
    simp only [Output.store, List.mem_cons, not_or] at hj ⊢
    rw [Function.update_of_ne hj.1]
    exact hwithin.frame j hj.2

theorem Output.Within.put (hwithin : o.Within mem stop) {c : Char}
    (hpos : o.pos < stop) (hc : c ≠ '\x00') : (o.put c).Within mem stop := by
  have hstore : (o.store o.pos c).Within mem stop :=
    hwithin.store hpos.le fun h => absurd h (lt_irrefl _)
  refine ⟨hpos, hstore.written_le, ?_, hstore.frame⟩
  intro i hi
  rcases Nat.lt_succ_iff_lt_or_eq.mp hi with hlt | rfl
  · exact hstore.noNul i hlt
  · simpa [Output.put, Output.store] using hc

theorem Output.Within.outc (hwithin : o.Within mem stop) {c : Char}
    (hc : c ≠ '\x00') : (outc stop c o).Within mem stop := by
  unfold Palloc.outc
  split
  · exact hwithin
  · next hpos => exact hwithin.put (Nat.lt_of_not_le hpos) hc

theorem Output.Within.outs (hwithin : o.Within mem stop) {s : List Char}
    (hs : '\x00' ∉ s) : (outs stop s o).Within mem stop := by
  induction s generalizing o with
  | nil => exact hwithin
  | cons c s ih =>
    rw [List.mem_cons, not_or] at hs
    rw [Palloc.outs]
    split
    · next hpos => exact ih (hwithin.put hpos (Ne.symm hs.1)) hs.2
    · exact hwithin

theorem Output.Within.outFill (hwithin : o.Within mem stop) {fill : Char}
    (hfill : fill ≠ '\x00') (len : ℕ) :
    (outFill stop fill len o).Within mem stop := by
  induction len generalizing o with
  | zero => exact hwithin
  | succ len ih =>
    rw [Palloc.outFill]
    split
    · next hpos => exact ih (hwithin.put hpos hfill)
    · exact hwithin

theorem Output.Within.moveRight (hwithin : o.Within mem stop)
    {start len extra : ℕ} (htext : start + len ≤ o.pos)
    (hroom : start + len + extra ≤ stop) {n : ℕ} (hn : n ≤ len) :
    (moveRight start len extra n o).Within mem stop := by
  induction n with
  | zero => exact hwithin
  | succ n ih =>
    have hprev := ih (by omega)
    refine hprev.store (by omega) fun _ => hprev.noNul _ ?_
    rw [moveRight_pos]
    omega

theorem Output.Within.fillStart (hwithin : o.Within mem stop) {fill : Char}
    (hfill : fill ≠ '\x00') {start n : ℕ} (hroom : start + n ≤ stop) :
    (fillStart fill start n o).Within mem stop := by
  induction n with
  | zero => exact hwithin
  | succ n ih =>
    exact (ih (by omega)).store (by omega) fun _ => hfill

theorem Output.Within.outAlignright (hwithin : o.Within mem stop)
    {fill : Char} (hfill : fill ≠ '\x00') {start len : ℕ} (extra : ℕ)
    (htext : start + len ≤ o.pos) :
    (outAlignright stop fill start len extra o).Within mem stop := by
  unfold Palloc.outAlignright
  split
  · exact hwithin
  · split
    · exact hwithin
    · next hroom =>
      push Not at hroom
      exact (hwithin.moveRight htext hroom.le le_rfl).fillStart hfill
        (by omega)

theorem Output.Within.outSign (hwithin : o.Within mem stop)
    {sign : Option Char} (hsign : sign ≠ some '\x00') :
    (outSign stop sign o).Within mem stop := by
  cases sign with
  | none => exact hwithin
  | some c =>
    refine Output.Within.outc hwithin ?_
    rintro rfl
    exact hsign rfl

theorem digitChar_ne_nul {digit : ℕ} (hdigit : digit < 16) :
    digitChar digit ≠ '\x00' := by
  revert digit
  decide

theorem Output.Within.outDigits (hwithin : o.Within mem stop) {base : ℕ}
    (hbase : base ≤ 16) (x : ℕ) :
    (outDigits stop base x o).Within mem stop := by
  induction x, o using outDigits.induct stop base with
  | case1 x o hstop =>
    rw [Palloc.outDigits, if_pos hstop]
    exact hwithin
  | case2 x o hstop ih =>
    rw [Palloc.outDigits, if_neg hstop]
    push Not at hstop
    have hdigit : x % base < base := Nat.mod_lt _ (by omega)
    exact ih (hwithin.outc (digitChar_ne_nul (by omega)))

theorem Output.Within.reverseLoop (hwithin : o.Within mem stop)
    {start len n : ℕ} (htext : start + len ≤ o.pos) (hn : n ≤ len / 2) :
    (reverseLoop start len n o).Within mem stop := by
  induction n with
  | zero => exact hwithin
  | succ n ih =>
    have hprev := ih (by omega)
    have hle := hwithin.pos_le
    have hread : ∀ i, i < len →
        (Palloc.reverseLoop start len n o).mem (start + i) ≠ '\x00' := by
      intro i hi
      refine hprev.noNul _ ?_
      rw [reverseLoop_pos]
      omega
    exact (hprev.store (by omega) fun _ => hread n (by omega)).store
      (by omega) fun _ => hread (len - n - 1) (by omega)

theorem Output.Within.outNum (hwithin : o.Within mem stop)
    {sign : Option Char} (hsign : sign ≠ some '\x00') (x base : ℕ) :
    (outNum stop x base sign o).Within mem stop := by
  unfold Palloc.outNum
  split
  · exact (hwithin.outSign hsign).outc (by decide)
  · next hbase =>
    push Not at hbase
    have hout := (hwithin.outDigits hbase.2.2 x).outSign hsign
    have hle := (le_outDigits_pos stop base x o).trans
      (le_outSign_pos stop sign _)
    exact hout.reverseLoop (by omega) le_rfl

end Palloc
