import Palloc.KeyStream
import Mathlib.Data.Vector.Basic

/-!
# The random stream

`chacha_next32` hands out the words of a buffered block one by one and clears
them.  An empty buffer is filled by `chacha_block`, which also moves the
counter on.  From a context that was just initialised or split off, the words
that come out are the key stream.
-/

namespace Palloc

open KeyStream

/-- `PA_CHACHA_ROUNDS`. -/
def chachaRounds : ℕ := 20

/-- `pa_random_ctx_t`: at most sixteen words are available. -/
structure RandomCtx where
  input : Vector (BitVec 32) 16
  output : Vector (BitVec 32) 16
  outputAvailable : ℕ
  weak : Bool
  available_le : outputAvailable ≤ 16

def RandomCtx.zero : RandomCtx where
  input := Vector.replicate 16 0
  output := Vector.replicate 16 0
  outputAvailable := 0
  weak := false
  available_le := by decide

/-- `memset(ctx, 0, sizeof(*ctx))`, whatever the context was. -/
def RandomCtx.cleared (_ctx : RandomCtx) : RandomCtx :=
  RandomCtx.zero

/-! ## `chacha_block` -/

/-- `rotl` on words of 32 bits. -/
def rotl32 (x : BitVec 32) (shift : ℕ) : BitVec 32 :=
  x <<< shift ||| x >>> (32 - shift)

/-- One half of `qround`: `x[a] += x[b]; x[d] = rotl(x[d] ^ x[a], shift)`. -/
def qstep (x : Vector (BitVec 32) 16) (a b d : Fin 16) (shift : ℕ) :
    Vector (BitVec 32) 16 :=
  let x := x.set a (x[a] + x[b])
  x.set d (rotl32 (x[d] ^^^ x[a]) shift)

def qround (x : Vector (BitVec 32) 16) (a b c d : Fin 16) :
    Vector (BitVec 32) 16 :=
  let x := qstep x a b d 16
  let x := qstep x c d b 12
  let x := qstep x a b d 8
  qstep x c d b 7

/-- The first four quarter rounds of the body of the loop. -/
def columnQrounds (x : Vector (BitVec 32) 16) : Vector (BitVec 32) 16 :=
  let x := qround x 0 4 8 12
  let x := qround x 1 5 9 13
  let x := qround x 2 6 10 14
  qround x 3 7 11 15

def diagonalQrounds (x : Vector (BitVec 32) 16) : Vector (BitVec 32) 16 :=
  let x := qround x 0 5 10 15
  let x := qround x 1 6 11 12
  let x := qround x 2 7 8 13
  qround x 3 4 9 14

/-- `for (i = 0; i < PA_CHACHA_ROUNDS; i += 2)`, with the number of passes. -/
def chachaScramble :
    ℕ → Vector (BitVec 32) 16 → Vector (BitVec 32) 16
  | 0, x => x
  | passes + 1, x => chachaScramble passes (diagonalQrounds (columnQrounds x))

/-- The counter moves on, "and keep increasing into the nonce". -/
def incrementCounter (input : Vector (BitVec 32) 16) :
    Vector (BitVec 32) 16 :=
  let input := input.set 12 (input[12] + 1)
  if input[12] = 0 then
    let input := input.set 13 (input[13] + 1)
    if input[13] = 0 then
      input.set 14 (input[14] + 1)
    else input
  else input

def chachaBlock (ctx : RandomCtx) : RandomCtx where
  input := incrementCounter ctx.input
  output := Vector.zipWith (· + ·)
    (chachaScramble (chachaRounds / 2) ctx.input) ctx.input
  outputAvailable := 16
  weak := ctx.weak
  available_le := le_refl 16

/-! ## `chacha_next32` -/

def takeWord (ctx : RandomCtx) (hpos : 0 < ctx.outputAvailable) :
    BitVec 32 × RandomCtx :=
  have hindex : 16 - ctx.outputAvailable < 16 := by omega
  (ctx.output[16 - ctx.outputAvailable],
    { ctx with
      output := ctx.output.set (16 - ctx.outputAvailable) 0
      outputAvailable := ctx.outputAvailable - 1
      available_le := by have := ctx.available_le; omega })

theorem chachaBlock_available (ctx : RandomCtx) :
    0 < (chachaBlock ctx).outputAvailable := by
  simp [chachaBlock]

/-- `chacha_next32`. -/
def chachaNext32 (ctx : RandomCtx) : BitVec 32 × RandomCtx :=
  if hpos : 0 < ctx.outputAvailable then
    takeWord ctx hpos
  else
    takeWord (chachaBlock ctx) (chachaBlock_available ctx)

/-- The words of `n` calls, and the context after them. -/
def chachaWords : ℕ → RandomCtx → List (BitVec 32) × RandomCtx
  | 0, ctx => ([], ctx)
  | n + 1, ctx =>
    let (word, ctx) := chachaNext32 ctx
    let (words, ctx) := chachaWords n ctx
    (word :: words, ctx)

/-! ## Initialisation -/

/-- `read32`: a little endian word. -/
def read32 (p : ℕ → BitVec 8) (idx32 : ℕ) : BitVec 32 :=
  let i := 4 * idx32
  (p i).setWidth 32 ||| (p (i + 1)).setWidth 32 <<< 8 |||
    (p (i + 2)).setWidth 32 <<< 16 ||| (p (i + 3)).setWidth 32 <<< 24

/-- The bytes of `"expand 32-byte k"`. -/
def sigma : Vector (BitVec 8) 16 :=
  #v[0x65, 0x78, 0x70, 0x61, 0x6e, 0x64, 0x20, 0x33,
    0x32, 0x2d, 0x62, 0x79, 0x74, 0x65, 0x20, 0x6b]

def chachaInit (ctx : RandomCtx) (key : Vector (BitVec 8) 32)
    (nonce : BitVec 64) : RandomCtx :=
  { ctx.cleared with
    input := Vector.ofFn fun i : Fin 16 =>
      if i.val < 4 then read32 (fun k => sigma[k]?.getD 0) i
      else if i.val < 12 then read32 (fun k => key[k]?.getD 0) (i - 4)
      else if i.val < 14 then 0
      else if i.val = 14 then nonce.setWidth 32
      else (nonce >>> 32).setWidth 32 }

def splitInput (input : Vector (BitVec 32) 16) (nonce : BitVec 64) :
    Vector (BitVec 32) 16 :=
  (((input.set 12 0).set 13 0).set 14 (nonce.setWidth 32)).set 15
    ((nonce >>> 32).setWidth 32)

/-- `chacha_split`: what becomes of the new context. -/
def chachaSplit (ctx : RandomCtx) (nonce : BitVec 64) (ctxNew : RandomCtx) :
    RandomCtx :=
  chachaBlock
    { ctxNew.cleared with input := splitInput ctx.input nonce }

/-! ## The block function -/

theorem rotl_eq (x : BitVec 32) {shift : ℕ} (hshift : shift < 32) :
    rotl32 x shift = x.rotateLeft shift := by
  rw [rotl32, BitVec.rotateLeft_def, Nat.mod_eq_of_lt hshift]

def lane (x : Vector (BitVec 32) 16) (i : Fin 16) : BitVec 32 :=
  x[i]

theorem lane_qstep (x : Vector (BitVec 32) 16) {a b d : Fin 16}
    (shift : ℕ) (hda : d ≠ a) (i : Fin 16) :
    lane (qstep x a b d shift) i =
      if i = d then rotl32 (lane x d ^^^ (lane x a + lane x b)) shift
      else if i = a then lane x a + lane x b
      else lane x i := by
  have had : a.val ≠ d.val := by simpa [Fin.ext_iff, eq_comm] using hda
  simp [lane, qstep, Vector.getElem_set, Fin.ext_iff, eq_comm, had]

/-- `qround` is a quarter round on the four words. -/
theorem lane_qround (x : Vector (BitVec 32) 16) {a b c d : Fin 16}
    (hab : a ≠ b) (hac : a ≠ c) (had : a ≠ d) (hbc : b ≠ c) (hbd : b ≠ d)
    (hcd : c ≠ d) (i : Fin 16) :
    lane (qround x a b c d) i =
      if i = a then quarterRound ![lane x a, lane x b, lane x c, lane x d] 0
      else if i = b then
        quarterRound ![lane x a, lane x b, lane x c, lane x d] 1
      else if i = c then
        quarterRound ![lane x a, lane x b, lane x c, lane x d] 2
      else if i = d then
        quarterRound ![lane x a, lane x b, lane x c, lane x d] 3
      else lane x i := by
  have hsixteen : (16 : ℕ) < 32 := by decide
  have htwelve : (12 : ℕ) < 32 := by decide
  have height : (8 : ℕ) < 32 := by decide
  have hseven : (7 : ℕ) < 32 := by decide
  simp only [qround, lane_qstep _ _ had.symm, lane_qstep _ _ hbc,
    rotl_eq _ hsixteen, rotl_eq _ htwelve, rotl_eq _ height,
    rotl_eq _ hseven, hab, hac, had, hbc, hbd, hcd, hab.symm, hac.symm,
    had.symm, hbc.symm, hbd.symm, hcd.symm, if_true, if_false]
  by_cases hia : i = a
  · subst hia
    simp [quarterRound, hab, hac, had]
  · by_cases hib : i = b
    · subst hib
      simp [quarterRound, hab.symm]
    · by_cases hic : i = c
      · subst hic
        simp [quarterRound, hac.symm, hbc.symm]
      · by_cases hid : i = d
        · subst hid
          simp [quarterRound, had.symm, hbd.symm, hcd.symm]
        · simp [hia, hib, hic, hid]

/-- The place of row `i` and column `j`. -/
def cell (i j : Fin 4) : Fin 16 :=
  ⟨4 * i.val + j.val, by omega⟩

def toGrid (x : Vector (BitVec 32) 16) : Grid :=
  fun i j => lane x (cell i j)

theorem column_eq (m : Grid) (j : Fin 4) :
    (fun k => m k j) = ![m 0 j, m 1 j, m 2 j, m 3 j] := by
  funext k
  fin_cases k <;> rfl

theorem toGrid_columnQrounds (x : Vector (BitVec 32) 16) :
    toGrid (columnQrounds x) = columnRound (toGrid x) := by
  funext i j
  rw [columnRound, column_eq]
  fin_cases j <;> fin_cases i <;>
    simp [toGrid, cell, columnQrounds, lane_qround]

theorem exists_turn : ∀ i j : Fin 4, ∃ d, j = d + i ∧ j - i = d := by
  decide

theorem toGrid_diagonalQrounds (x : Vector (BitVec 32) 16) :
    toGrid (diagonalQrounds x) = diagonalRound (toGrid x) := by
  funext i j
  obtain ⟨d, hj, hd⟩ := exists_turn i j
  rw [diagonalRound, turnBack, columnRound, column_eq, hd, hj]
  clear hj hd j
  fin_cases d <;> fin_cases i <;>
    simp [toGrid, cell, diagonalQrounds, turnDiagonals, lane_qround]

theorem toGrid_chachaScramble (passes : ℕ) (x : Vector (BitVec 32) 16) :
    toGrid (chachaScramble passes x) = doubleRound^[passes] (toGrid x) := by
  induction passes generalizing x with
  | zero => rfl
  | succ passes ih =>
    rw [chachaScramble, ih, toGrid_diagonalQrounds, toGrid_columnQrounds,
      Function.iterate_succ_apply, doubleRound]

theorem toGrid_incrementCounter (input : Vector (BitVec 32) 16) :
    toGrid (incrementCounter input) = advance (toGrid input) 1 := by
  rw [advance_one]
  funext i j
  by_cases hlow : input[12] + 1#32 = 0#32 <;>
    by_cases hmiddle : input[13] + 1#32 = 0#32 <;>
      fin_cases i <;> fin_cases j <;>
        simp [toGrid, cell, lane, incrementCounter, hlow, hmiddle]

theorem toGrid_input_chachaBlock (ctx : RandomCtx) :
    toGrid (chachaBlock ctx).input = advance (toGrid ctx.input) 1 :=
  toGrid_incrementCounter ctx.input

theorem toGrid_output_chachaBlock (ctx : RandomCtx) :
    toGrid (chachaBlock ctx).output =
      block (chachaRounds / 2) (toGrid ctx.input) := by
  funext i j
  rw [block, ← toGrid_chachaScramble]
  simp [toGrid, lane, chachaBlock]

theorem wordAt_toGrid (x : Vector (BitVec 32) 16) (i : Fin 16) :
    wordAt (toGrid x) i = lane x i := by
  rw [wordAt, toGrid]
  congr 1
  apply Fin.ext
  simp only [cell, Fin.ofNat]
  omega

/-- The test vector of the source for `chacha_block`. -/
example :
    (chachaBlock { RandomCtx.zero with
      input := #v[
        0x61707865, 0x3320646e, 0x79622d32, 0x6b206574,
        0x03020100, 0x07060504, 0x0b0a0908, 0x0f0e0d0c,
        0x13121110, 0x17161514, 0x1b1a1918, 0x1f1e1d1c,
        0x00000001, 0x09000000, 0x4a000000, 0x00000000] }).output =
      #v[
        0xe4e7f110, 0x15593bd1, 0x1fdd0f50, 0xc47120a3,
        0xc7f4d1c7, 0x0368c033, 0x9aaa2204, 0x4e6cd4c3,
        0x466482d2, 0x09aa9f07, 0x05d7c214, 0xa2028bd9,
        0xd19c12b5, 0xb94e16de, 0xe883d0cb, 0x4e3c50a2] := by
  decide +kernel

/-! ## Where the context stands in the stream -/

/-- After `n` words of the stream of `base`, with `blocks` blocks made: the
words of the last block that were handed out are cleared, the others are
there. -/
structure StreamAt (base : Grid) (n blocks : ℕ) (ctx : RandomCtx) :
    Prop where
  count : n + ctx.outputAvailable = 16 * blocks
  input : toGrid ctx.input = advance base blocks
  left : ∀ i : Fin 16, 16 - ctx.outputAvailable ≤ i.val →
    lane ctx.output i =
      wordAt (block (chachaRounds / 2) (advance base (blocks - 1))) i
  used : ∀ i : Fin 16, i.val < 16 - ctx.outputAvailable →
    lane ctx.output i = 0

theorem StreamAt.chachaBlock {base : Grid} {n blocks : ℕ} {ctx : RandomCtx}
    (hat : StreamAt base n blocks ctx) (hempty : ctx.outputAvailable = 0) :
    StreamAt base n (blocks + 1) (chachaBlock ctx) where
  count := by
    have hcount := hat.count
    change n + 16 = 16 * (blocks + 1)
    omega
  input := by
    rw [toGrid_input_chachaBlock, hat.input, advance_advance]
  left := by
    intro i hi
    rw [← wordAt_toGrid, toGrid_output_chachaBlock, hat.input,
      Nat.add_sub_cancel]
  used := by
    intro i hi
    change i.val < 16 - 16 at hi
    omega

theorem StreamAt.takeWord {base : Grid} {n blocks : ℕ} {ctx : RandomCtx}
    (hat : StreamAt base n blocks ctx) (hpos : 0 < ctx.outputAvailable) :
    (takeWord ctx hpos).1 = streamWord (chachaRounds / 2) base n ∧
      StreamAt base (n + 1) blocks (takeWord ctx hpos).2 := by
  have hle := ctx.available_le
  have hcount := hat.count
  have hblock : n / 16 = blocks - 1 := by omega
  have hplace : n % 16 = 16 - ctx.outputAvailable := by omega
  constructor
  · rw [streamWord, hblock, hplace]
    exact hat.left ⟨16 - ctx.outputAvailable, by omega⟩ (le_refl _)
  · constructor
    · change n + 1 + (ctx.outputAvailable - 1) = 16 * blocks
      omega
    · exact hat.input
    · intro i hi
      change 16 - (ctx.outputAvailable - 1) ≤ i.val at hi
      have hne : 16 - ctx.outputAvailable ≠ i.val := by omega
      rw [← hat.left i (by omega)]
      simp [lane, Palloc.takeWord, hne]
    · intro i hi
      change i.val < 16 - (ctx.outputAvailable - 1) at hi
      by_cases heq : 16 - ctx.outputAvailable = i.val
      · simp [lane, Palloc.takeWord, heq]
      · have hused := hat.used i (by omega)
        simp only [lane, Palloc.takeWord] at hused ⊢
        simpa [Vector.getElem_set, heq] using hused

theorem StreamAt.chachaNext32 {base : Grid} {n blocks : ℕ} {ctx : RandomCtx}
    (hat : StreamAt base n blocks ctx) :
    (chachaNext32 ctx).1 = streamWord (chachaRounds / 2) base n ∧
      ∃ made, StreamAt base (n + 1) made (chachaNext32 ctx).2 := by
  unfold Palloc.chachaNext32
  split
  · next hpos =>
    obtain ⟨hword, hnext⟩ := hat.takeWord hpos
    exact ⟨hword, blocks, hnext⟩
  · next hempty =>
    have hblock := hat.chachaBlock (Nat.eq_zero_of_not_pos hempty)
    obtain ⟨hword, hnext⟩ := hblock.takeWord (by simp [Palloc.chachaBlock])
    exact ⟨hword, blocks + 1, hnext⟩

theorem StreamAt.chachaWords {base : Grid} {blocks : ℕ} {ctx : RandomCtx}
    (calls : ℕ) {n : ℕ} (hat : StreamAt base n blocks ctx) :
    (chachaWords calls ctx).1 =
        (List.range' n calls).map (streamWord (chachaRounds / 2) base) ∧
      ∃ made, StreamAt base (n + calls) made (chachaWords calls ctx).2 := by
  induction calls generalizing n blocks ctx with
  | zero => exact ⟨rfl, blocks, hat⟩
  | succ calls ih =>
    obtain ⟨hword, made, hnext⟩ := hat.chachaNext32
    obtain ⟨hwords, total, hlast⟩ := ih hnext
    constructor
    · simp [Palloc.chachaWords, List.range'_succ, hword, hwords]
    · refine ⟨total, ?_⟩
      rw [← Nat.add_assoc, Nat.add_right_comm]
      exact hlast

/-! ## Fresh contexts -/

inductive RandomOrigin where
  | init (ctx : RandomCtx) (key : Vector (BitVec 8) 32) (nonce : BitVec 64)
  | split (ctx : RandomCtx) (nonce : BitVec 64) (ctxNew : RandomCtx)

def RandomOrigin.context : RandomOrigin → RandomCtx
  | .init ctx key nonce => chachaInit ctx key nonce
  | .split ctx nonce ctxNew => chachaSplit ctx nonce ctxNew

def littleEndian (b₀ b₁ b₂ b₃ : BitVec 8) : BitVec 32 :=
  b₃ ++ b₂ ++ b₁ ++ b₀

/-- The first grid of the stream: the constants and the eight key words,
which a split takes over from its parent. -/
def RandomOrigin.grid : RandomOrigin → Grid
  | .init _ key nonce =>
    keyGrid ![0x61707865, 0x3320646e, 0x79622d32, 0x6b206574]
      (fun i => littleEndian key[4 * i.val] key[4 * i.val + 1]
        key[4 * i.val + 2] key[4 * i.val + 3]) nonce
  | .split ctx nonce _ =>
    keyGrid (fun i => ctx.input[i.val]) (fun i => ctx.input[4 + i.val]) nonce

theorem read32_eq (p : ℕ → BitVec 8) (i : ℕ) :
    read32 p i =
      littleEndian (p (4 * i)) (p (4 * i + 1)) (p (4 * i + 2))
        (p (4 * i + 3)) := by
  simp only [read32, littleEndian]
  generalize p (4 * i) = a
  generalize p (4 * i + 1) = b
  generalize p (4 * i + 2) = c
  generalize p (4 * i + 3) = d
  apply BitVec.eq_of_getLsbD_eq
  intro j hj
  have hbyte : ∀ (x : BitVec 8) k, 8 ≤ k → x.getLsbD k = false :=
    fun x k hk => BitVec.getLsbD_of_ge x k hk
  have hsub₂ : j - 8 - 8 = j - 16 := by omega
  have hsub₃ : j - 16 - 8 = j - 24 := by omega
  rw [BitVec.getLsbD_append, BitVec.getLsbD_append, BitVec.getLsbD_append,
    hsub₂, hsub₃]
  simp only [BitVec.getLsbD_or, BitVec.getLsbD_shiftLeft,
    BitVec.getLsbD_setWidth]
  -- The byte in which bit `j` lies.
  by_cases hlow : j < 8
  · have h₂ : j < 16 := by omega
    have h₃ : j < 24 := by omega
    simp [hlow, h₂, h₃, hj]
  · by_cases hsecond : j < 16
    · have h₁ : j - 8 < 8 := by omega
      have h₃ : j < 24 := by omega
      have h₄ : j - 8 < 32 := by omega
      simp [hlow, hsecond, h₁, h₃, h₄, hj, hbyte a j (by omega)]
    · by_cases hthird : j < 24
      · have h₁ : ¬ j - 8 < 8 := by omega
        have h₂ : j - 16 < 8 := by omega
        have h₃ : j - 16 < 32 := by omega
        simp [hlow, hsecond, hthird, h₁, h₂, h₃, hj, hbyte a j (by omega),
          hbyte b (j - 8) (by omega)]
      · have h₁ : ¬ j - 8 < 8 := by omega
        have h₂ : ¬ j - 16 < 8 := by omega
        have h₃ : j - 24 < 32 := by omega
        simp [hlow, hsecond, hthird, h₁, h₂, h₃, hj, hbyte a j (by omega),
          hbyte b (j - 8) (by omega), hbyte c (j - 16) (by omega)]

theorem nonce_low (nonce : BitVec 64) :
    nonce.setWidth 32 = nonce.extractLsb' 0 32 := by
  apply BitVec.eq_of_toNat_eq
  rw [BitVec.toNat_setWidth, BitVec.extractLsb'_toNat, Nat.shiftRight_zero]

theorem nonce_high (nonce : BitVec 64) :
    (nonce >>> 32).setWidth 32 = nonce.extractLsb' 32 32 := by
  apply BitVec.eq_of_toNat_eq
  rw [BitVec.toNat_setWidth, BitVec.extractLsb'_toNat,
    BitVec.toNat_ushiftRight]

theorem read32_sigma (j : Fin 4) :
    read32 (fun k => sigma[k]?.getD 0) j =
      (![0x61707865, 0x3320646e, 0x79622d32, 0x6b206574] :
        Fin 4 → BitVec 32) j := by
  revert j
  decide

theorem read32_key (key : Vector (BitVec 8) 32) (i : Fin 8) :
    read32 (fun k => key[k]?.getD 0) i =
      littleEndian key[4 * i.val] key[4 * i.val + 1] key[4 * i.val + 2]
        key[4 * i.val + 3] := by
  have h₀ : 4 * i.val < 32 := by omega
  have h₁ : 4 * i.val + 1 < 32 := by omega
  have h₂ : 4 * i.val + 2 < 32 := by omega
  have h₃ : 4 * i.val + 3 < 32 := by omega
  simp only [read32_eq, Vector.getElem?_eq_getElem h₀,
    Vector.getElem?_eq_getElem h₁, Vector.getElem?_eq_getElem h₂,
    Vector.getElem?_eq_getElem h₃, Option.getD_some]

theorem lane_chachaInit (ctx : RandomCtx) (key : Vector (BitVec 8) 32)
    (nonce : BitVec 64) (i : Fin 16) :
    lane (chachaInit ctx key nonce).input i =
      if i.val < 4 then read32 (fun k => sigma[k]?.getD 0) i
      else if i.val < 12 then read32 (fun k => key[k]?.getD 0) (i - 4)
      else if i.val < 14 then 0
      else if i.val = 14 then nonce.setWidth 32
      else (nonce >>> 32).setWidth 32 := by
  simp only [lane, chachaInit, Fin.getElem_fin, Vector.getElem_ofFn]

theorem grid_place (i : Fin 4) : i = 0 ∨ i = 1 ∨ i = 2 ∨ i = 3 := by
  revert i
  decide

theorem toGrid_chachaInit (ctx : RandomCtx) (key : Vector (BitVec 8) 32)
    (nonce : BitVec 64) :
    toGrid (chachaInit ctx key nonce).input =
      (RandomOrigin.init ctx key nonce).grid := by
  funext i j
  rw [toGrid, lane_chachaInit, RandomOrigin.grid]
  obtain rfl | rfl | rfl | rfl := grid_place i
  · simpa [cell, keyGrid] using read32_sigma j
  · have hword := read32_key key ⟨j.val, by omega⟩
    obtain rfl | rfl | rfl | rfl := grid_place j <;>
      simpa [cell, keyGrid] using hword
  · have hword := read32_key key ⟨4 + j.val, by omega⟩
    obtain rfl | rfl | rfl | rfl := grid_place j <;>
      simpa [cell, keyGrid] using hword
  · obtain rfl | rfl | rfl | rfl := grid_place j <;>
      simp [cell, keyGrid, nonce_low nonce, nonce_high nonce]

theorem toGrid_splitInput (ctx ctxNew : RandomCtx) (nonce : BitVec 64) :
    toGrid (splitInput ctx.input nonce) =
      (RandomOrigin.split ctx nonce ctxNew).grid := by
  funext i j
  rw [toGrid, lane, splitInput, RandomOrigin.grid]
  obtain rfl | rfl | rfl | rfl := grid_place i <;>
    obtain rfl | rfl | rfl | rfl := grid_place j <;>
      simp [cell, keyGrid, nonce_low nonce, nonce_high nonce]

theorem RandomOrigin.streamAt (origin : RandomOrigin) :
    ∃ blocks, StreamAt origin.grid 0 blocks origin.context := by
  cases origin with
  | init ctx key nonce =>
    refine ⟨0, rfl, ?_, ?_, ?_⟩
    · rw [advance_zero]
      exact toGrid_chachaInit ctx key nonce
    · intro i hi
      change 16 - 0 ≤ i.val at hi
      omega
    · intro i _
      simp [lane, context, chachaInit, RandomCtx.cleared, RandomCtx.zero]
  | split ctx nonce ctxNew =>
    refine ⟨1, StreamAt.chachaBlock ⟨rfl, ?_, ?_, ?_⟩ rfl⟩
    · rw [advance_zero]
      exact toGrid_splitInput ctx ctxNew nonce
    · intro i hi
      change 16 - 0 ≤ i.val at hi
      omega
    · intro i _
      simp [lane, RandomCtx.cleared, RandomCtx.zero]

theorem toGrid_input_iterate (ctx : RandomCtx) (k : ℕ) :
    toGrid (chachaBlock^[k] ctx).input = advance (toGrid ctx.input) k := by
  induction k with
  | zero => simp
  | succ k ih =>
    rw [Function.iterate_succ_apply', toGrid_input_chachaBlock, ih,
      advance_advance]

/-- The words handed out are the words of the stream in order, the used ones
are cleared, each has a grid and a position of its own, and each block is made
from another input. -/
theorem chacha_stream (origin : RandomOrigin) (calls : ℕ) :
    (chachaWords calls origin.context).1 =
        (List.range calls).map
          (streamWord (chachaRounds / 2) origin.grid) ∧
      (∃ blocks,
        calls + (chachaWords calls origin.context).2.outputAvailable =
          16 * blocks) ∧
      (∀ i : Fin 16,
        i.val < 16 - (chachaWords calls origin.context).2.outputAvailable →
        lane (chachaWords calls origin.context).2.output i = 0) ∧
      (∀ n l, n < 16 * 2 ^ 96 → l < 16 * 2 ^ 96 → n ≠ l →
        (advance origin.grid (n / 16), n % 16) ≠
          (advance origin.grid (l / 16), l % 16)) ∧
      ∀ k l, k < 2 ^ 96 → l < 2 ^ 96 → k ≠ l →
        (chachaBlock^[k] origin.context).input ≠
          (chachaBlock^[l] origin.context).input := by
  obtain ⟨blocks, hstart⟩ := origin.streamAt
  obtain ⟨hwords, made, hat⟩ := hstart.chachaWords calls
  rw [Nat.zero_add] at hat
  refine ⟨?_, ⟨made, hat.count⟩, hat.used, ?_, ?_⟩
  · rw [hwords, List.range_eq_range']
  · intro n l hn hl hne heq
    rw [Prod.mk.injEq] at heq
    exact hne (stream_position_injective _ hn hl heq.1 heq.2)
  · intro k l hk hl hne heq
    have hgrid := congrArg toGrid heq
    rw [toGrid_input_iterate, toGrid_input_iterate] at hgrid
    exact hne (advance_injective _ hk hl hgrid)

end Palloc
