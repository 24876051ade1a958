import Palloc.PrintfNumber

/-!
# A buffer that grows

`pa_heap_buf_print` appends a string to a buffer.  A buffer of the caller is
fixed; an internal one is doubled with `pa_rezalloc` as long as that
succeeds.  A string that does not fit is cut off, and later strings are still
tried.
-/

namespace Palloc

open MachineWord

/-- `pa_heap_buf_t`, with `used` as the cursor, and the number of calls of
`pa_rezalloc` so far.  The size is zero when there is no buffer yet. -/
structure HeapBuf where
  out : Output
  size : ℕ
  canRealloc : Bool
  calls : ℕ

/-- What `pa_rezalloc` does: a call fails, or the memory behind the old
content is as given. -/
structure BufferGrowth where
  build : BlockBuild
  rezalloc : ℕ → Option (ℕ → Char)

/-- `pa_good_size(12*PA_KiB)`, which is at most `PA_MEDIUM_OBJ_SIZE_MAX`. -/
def BufferGrowth.firstSize (grow : BufferGrowth) : ℕ :=
  queueBlockSize (bin (12 * kib + grow.build.paddingSize))

theorem BufferGrowth.firstSize_pos (grow : BufferGrowth) :
    0 < grow.firstSize ∧ grow.firstSize ≤ 2 ^ 16 := by
  unfold firstSize BlockBuild.paddingSize
  split <;> decide +kernel

/-- `SIZE_MAX`. -/
def sizeMax : ℕ := wordSize - 1

namespace HeapBuf

def sealEnd (h : HeapBuf) : HeapBuf :=
  if 0 < h.size then { h with out := h.out.store (h.size - 1) '\x00' } else h

/-- `pa_heap_buf_expand`. -/
def expand (grow : BufferGrowth) (h : HeapBuf) : Bool × HeapBuf :=
  let h := h.sealEnd
  if sizeMax / 2 < h.size ∨ h.canRealloc = false then (false, h)
  else
    match grow.rezalloc h.calls with
    | none => (false, { h with calls := h.calls + 1 })
    | some fresh =>
      let mem := fun i => if i < h.size then h.out.mem i else fresh i
      (true,
        { h with
          out := { h.out with mem := mem }
          size := if h.size = 0 then grow.firstSize else 2 * h.size
          calls := h.calls + 1 })

/-- `buf[used++] = c`. -/
def put (h : HeapBuf) (c : Char) : HeapBuf := { h with out := h.out.put c }

/-- `buf[used] = 0`. -/
def terminate (h : HeapBuf) : HeapBuf :=
  { h with out := h.out.store h.out.pos '\x00' }

def printLoop (grow : BufferGrowth) : List Char → HeapBuf → HeapBuf
  | [], h => h.terminate
  | c :: msg, h =>
    if h.size ≤ h.out.pos + 1 then
      let grown := h.expand grow
      if grown.1 then printLoop grow msg (grown.2.put c) else grown.2
    else printLoop grow msg (h.put c)

/-- `pa_heap_buf_print`. -/
def print (grow : BufferGrowth) (msg : List Char) (h : HeapBuf) : HeapBuf :=
  if h.size ≤ h.out.pos + 1 ∧ h.canRealloc = false then h
  else printLoop grow msg h

/-! ## Room -/

/-- All growth that `n` more characters need succeeds. -/
def Room (grow : BufferGrowth) (h : HeapBuf) (n : ℕ) : Prop :=
  ∀ i, h.size * 2 ^ i ≤ h.out.pos + n →
    h.canRealloc = true ∧ h.size * 2 ^ i ≤ sizeMax / 2 ∧
      (grow.rezalloc (h.calls + i)).isSome = true

def Terminated (h : HeapBuf) : Prop := h.out.mem h.out.pos = '\x00'

variable {grow : BufferGrowth} {h : HeapBuf}

theorem Room.mono {m n : ℕ} (hroom : h.Room grow n) (hle : m ≤ n) :
    h.Room grow m :=
  fun i hi => hroom i (hi.trans (by omega))

theorem room_zero (hused : h.out.pos < h.size) : h.Room grow 0 := by
  intro i hi
  have hle := Nat.le_mul_of_pos_right h.size (Nat.two_pow_pos i)
  omega

theorem room_put (c : Char) (n : ℕ) :
    (h.put c).Room grow n ↔ h.Room grow (n + 1) := by
  have hpos : (h.put c).out.pos + n = h.out.pos + (n + 1) := by
    simp [put]
    omega
  unfold Room
  rw [hpos]
  rfl

/-! ## Growing -/

def CanGrow (grow : BufferGrowth) (h : HeapBuf) : Prop :=
  h.canRealloc = true ∧ h.size ≤ sizeMax / 2 ∧
    (grow.rezalloc h.calls).isSome = true

theorem sealEnd_eq (hsize : 0 < h.size) :
    h.sealEnd = { h with out := h.out.store (h.size - 1) '\x00' } := by
  unfold sealEnd
  rw [if_pos hsize]

theorem store_text {o : Output} {i : ℕ} (c : Char) (hi : o.pos ≤ i) :
    (o.store i c).text = o.text := by
  refine text_eq_of_mem (by simp) ?_
  intro j hj
  rw [text_length] at hj
  rw [text_getElem]
  have hne : j ≠ i := by omega
  simp [Output.store, hne]

structure Kept (h h' : HeapBuf) : Prop where
  text : h'.out.text = h.out.text
  size : h'.size = h.size
  canRealloc : h'.canRealloc = h.canRealloc
  terminated : h'.Terminated

structure Grown (h h' : HeapBuf) : Prop where
  text : h'.out.text = h.out.text
  size : h'.size = 2 * h.size
  canRealloc : h'.canRealloc = h.canRealloc
  calls : h'.calls = h.calls + 1

theorem pos_eq_of_text {o o' : Output} (htext : o'.text = o.text) :
    o'.pos = o.pos := by
  rw [← text_length o', htext, text_length]

theorem expand_spec (hfull : h.out.pos + 1 = h.size) :
    ((h.expand grow).1 = true ∧ h.CanGrow grow ∧
        h.Grown (h.expand grow).2) ∨
      ((h.expand grow).1 = false ∧ ¬ h.CanGrow grow ∧
        h.Kept (h.expand grow).2) := by
  have hpos : h.size - 1 = h.out.pos := by omega
  have htext := @store_text h.out _ '\x00' (le_refl h.out.pos)
  have hkept : ∀ calls, h.Kept ⟨h.out.store h.out.pos '\x00', h.size,
      h.canRealloc, calls⟩ := fun calls =>
    ⟨htext, rfl, rfl, by simp [Terminated, Output.store]⟩
  unfold expand CanGrow
  rw [sealEnd_eq (by omega), hpos]
  dsimp only
  split
  · next hnot =>
    refine Or.inr ⟨rfl, ?_, hkept _⟩
    rintro ⟨hrealloc, hsize, _⟩
    rcases hnot with hlarge | hfixed
    · omega
    · rw [hfixed] at hrealloc
      cases hrealloc
  · next hcan =>
    rw [not_or, Bool.not_eq_false] at hcan
    cases hcall : grow.rezalloc h.calls with
    | none => exact Or.inr ⟨rfl, by simp, hkept _⟩
    | some fresh =>
      refine Or.inl ⟨rfl, ⟨hcan.2, by omega, rfl⟩, ?_, ?_, rfl, rfl⟩
      · refine text_eq_of_mem (by simp) ?_
        intro i hi
        rw [text_length] at hi
        have hne : i ≠ h.out.pos := by omega
        have hlt : i < h.size := by omega
        simp [text_getElem, Output.store, hlt, hne]
      · simp only
        rw [if_neg (by omega)]

theorem room_grown {h' : HeapBuf} (hgrown : h.Grown h')
    (hcan : h.CanGrow grow) (n : ℕ) :
    h'.Room grow n ↔ h.Room grow n := by
  have hpos := pos_eq_of_text hgrown.text
  have hsize : ∀ i, h'.size * 2 ^ i = h.size * 2 ^ (i + 1) := by
    intro i
    rw [hgrown.size, Nat.pow_succ]
    ring
  have hcalls : ∀ i, h'.calls + i = h.calls + (i + 1) := by
    intro i
    rw [hgrown.calls]
    omega
  unfold Room
  simp only [hpos, hsize, hcalls, hgrown.canRealloc]
  constructor
  · intro hroom i hi
    cases i with
    | zero => simpa [CanGrow] using hcan
    | succ i => exact hroom i hi
  · intro hroom i hi
    exact hroom (i + 1) hi

/-! ## Printing -/

structure Prints (grow : BufferGrowth) (h h' : HeapBuf) (msg : List Char) :
    Prop where
  used_lt : h'.out.pos < h'.size
  canRealloc : h'.canRealloc = h.canRealloc
  terminated : (h.canRealloc = false → h.Terminated) → h'.Terminated
  full : h.Room grow msg.length → h'.out.text = h.out.text ++ msg
  room : h.Room grow msg.length →
    ∀ n, h'.Room grow n ↔ h.Room grow (msg.length + n)
  short : ¬ h.Room grow msg.length →
    h'.out.text.length < h.out.text.length + msg.length

theorem Prints.length_le {h' : HeapBuf} {msg : List Char}
    (hprints : h.Prints grow h' msg) :
    h'.out.text.length ≤ h.out.text.length + msg.length := by
  by_cases hroom : h.Room grow msg.length
  · rw [hprints.full hroom, List.length_append]
  · exact (hprints.short hroom).le

theorem Prints.trans {h' h'' : HeapBuf} {first second : List Char}
    (hfirst : h.Prints grow h' first) (hsecond : h'.Prints grow h'' second) :
    h.Prints grow h'' (first ++ second) := by
  have hsplit : h.Room grow (first ++ second).length →
      h.Room grow first.length ∧ h'.Room grow second.length := by
    intro hroom
    rw [List.length_append] at hroom
    have hpart := hroom.mono (Nat.le_add_right _ _)
    exact ⟨hpart, (hfirst.room hpart _).mpr hroom⟩
  refine ⟨hsecond.used_lt, hsecond.canRealloc.trans hfirst.canRealloc, ?_,
    ?_, ?_, ?_⟩
  · intro hterminated
    exact hsecond.terminated fun _ => hfirst.terminated hterminated
  · intro hroom
    obtain ⟨hone, htwo⟩ := hsplit hroom
    rw [hsecond.full htwo, hfirst.full hone, List.append_assoc]
  · intro hroom n
    obtain ⟨hone, htwo⟩ := hsplit hroom
    rw [hsecond.room htwo, hfirst.room hone, List.length_append,
      Nat.add_assoc]
  · intro hnot
    rw [List.length_append] at hnot ⊢
    by_cases hone : h.Room grow first.length
    · have htwo : ¬ h'.Room grow second.length := fun hroom =>
        hnot ((hfirst.room hone _).mp hroom)
      have hlen := congrArg List.length (hfirst.full hone)
      rw [List.length_append] at hlen
      have hlt := hsecond.short htwo
      omega
    · have hlt := hfirst.short hone
      have hle := hsecond.length_le
      omega

theorem put_prints {h' : HeapBuf} {c : Char} {msg : List Char}
    (hrest : (h.put c).Prints grow h' msg)
    (hterminated : h'.Terminated) : h.Prints grow h' (c :: msg) := by
  have htext : (h.put c).out.text = h.out.text ++ [c] := put_text h.out c
  have hroom : h.Room grow (c :: msg).length ↔
      (h.put c).Room grow msg.length := (room_put c msg.length).symm
  refine ⟨hrest.used_lt, hrest.canRealloc, fun _ => hterminated, ?_, ?_, ?_⟩
  · intro hfits
    rw [hrest.full (hroom.mp hfits), htext]
    simp
  · intro hfits n
    have hlen : (c :: msg).length + n = (msg.length + n) + 1 := by
      rw [List.length_cons]
      omega
    rw [hrest.room (hroom.mp hfits), room_put, hlen]
  · intro hnot
    have hlt := hrest.short fun hfits => hnot (hroom.mpr hfits)
    rw [htext, List.length_append] at hlt
    simp only [List.length_cons, List.length_nil] at hlt ⊢
    omega

theorem terminate_prints (hused : h.out.pos < h.size) :
    h.Prints grow h.terminate [] := by
  have htext : h.terminate.out.text = h.out.text :=
    store_text '\x00' le_rfl
  refine ⟨hused, rfl, fun _ => ?_, fun _ => ?_, fun _ n => ?_, fun hnot => ?_⟩
  · simp [Terminated, terminate, Output.store]
  · rw [htext, List.append_nil]
  · rw [List.length_nil, Nat.zero_add]
    rfl
  · exact absurd (room_zero hused) hnot

theorem kept_prints {h' : HeapBuf} {c : Char} {msg : List Char}
    (hfull : h.out.pos + 1 = h.size) (hnot : ¬ h.CanGrow grow)
    (hkept : h.Kept h') : h.Prints grow h' (c :: msg) := by
  have hpos := pos_eq_of_text hkept.text
  have hroom : ¬ h.Room grow (c :: msg).length := by
    intro hroom
    refine hnot ?_
    have hfirst := hroom 0 (by rw [List.length_cons]; omega)
    simpa [CanGrow] using hfirst
  refine ⟨?_, hkept.canRealloc, fun _ => hkept.terminated,
    fun h => absurd h hroom, fun h => absurd h hroom, fun _ => ?_⟩
  · rw [hpos, hkept.size]
    omega
  · rw [hkept.text, List.length_cons]
    omega

theorem grown_prints {h' h'' : HeapBuf} {msg : List Char}
    (hgrown : h.Grown h') (hcan : h.CanGrow grow)
    (hrest : h'.Prints grow h'' msg) (hterminated : h''.Terminated) :
    h.Prints grow h'' msg := by
  have hroom := room_grown hgrown hcan
  refine ⟨hrest.used_lt, hrest.canRealloc.trans hgrown.canRealloc,
    fun _ => hterminated, ?_, ?_, ?_⟩
  · intro hfits
    rw [hrest.full ((hroom _).mpr hfits), hgrown.text]
  · intro hfits n
    rw [hrest.room ((hroom _).mpr hfits), hroom]
  · intro hnot
    rw [← hgrown.text]
    exact hrest.short fun hfits => hnot ((hroom _).mp hfits)

theorem printLoop_prints {msg : List Char} (hused : h.out.pos < h.size) :
    h.Prints grow (h.printLoop grow msg) msg ∧
      (h.printLoop grow msg).Terminated := by
  induction msg generalizing h with
  | nil =>
    have hprints := @terminate_prints grow h hused
    exact ⟨hprints, by simp [printLoop, terminate, Terminated, Output.store]⟩
  | cons c msg ih =>
    rw [printLoop]
    split
    · next hfull =>
      have hlast : h.out.pos + 1 = h.size := by omega
      rcases @expand_spec grow h hlast with
        ⟨htrue, hcan, hgrown⟩ | ⟨hfalse, hnot, hkept⟩
      · simp only [htrue, if_true]
        have hpos := pos_eq_of_text hgrown.text
        have hsize := hgrown.size
        have hnext := @ih ((h.expand grow).2.put c) (by
          change (h.expand grow).2.out.pos + 1 < (h.expand grow).2.size
          omega)
        exact ⟨grown_prints hgrown hcan (put_prints hnext.1 hnext.2) hnext.2,
          hnext.2⟩
      · simp only [hfalse, Bool.false_eq_true, if_false]
        exact ⟨kept_prints hlast hnot hkept, hkept.terminated⟩
    · next hplace =>
      have hnext := @ih (h.put c) (by
        change h.out.pos + 1 < h.size
        omega)
      exact ⟨put_prints hnext.1 hnext.2, hnext.2⟩

theorem fixed_prints {msg : List Char} (hused : h.out.pos < h.size)
    (hfull : h.size ≤ h.out.pos + 1) (hfixed : h.canRealloc = false) :
    h.Prints grow h msg := by
  refine ⟨hused, rfl, fun hterminated => hterminated hfixed, ?_, ?_, ?_⟩
  · intro hroom
    cases msg with
    | nil => rw [List.append_nil]
    | cons c msg =>
      have hfirst := hroom 0 (by rw [List.length_cons]; omega)
      rw [hfixed] at hfirst
      cases hfirst.1
  · intro hroom n
    cases msg with
    | nil => rw [List.length_nil, Nat.zero_add]
    | cons c msg =>
      have hfirst := hroom 0 (by rw [List.length_cons]; omega)
      rw [hfixed] at hfirst
      cases hfirst.1
  · intro hnot
    cases msg with
    | nil => exact absurd (room_zero hused) hnot
    | cons c msg =>
      rw [List.length_cons]
      omega

theorem print_prints (msg : List Char) (hused : h.out.pos < h.size) :
    h.Prints grow (h.print grow msg) msg := by
  unfold print
  split
  · next hfull => exact fixed_prints hused hfull.1 hfull.2
  · exact (printLoop_prints hused).1

end HeapBuf

end Palloc
