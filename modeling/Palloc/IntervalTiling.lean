import Mathlib.Data.List.Basic
import Mathlib.Data.List.Chain

/-!
# Tilings of an index interval

A tile is a nonempty interval of indices with a kind.  `Tiles lo tiles hi`
says that the tiles follow each other without gap or overlap from `lo` to
`hi`.  Operations on a tiled array rewrite a few neighbouring tiles, so the
lemmas split a tiling at a tile and say where the other tiles lie.
-/

namespace IntervalTiling

variable {κ : Type*}

@[ext] structure Tile (κ : Type*) where
  start : ℕ
  count : ℕ
  kind : κ
  deriving DecidableEq, Repr

def Tile.stop (tile : Tile κ) : ℕ := tile.start + tile.count

/-- The tiles cover `[lo, hi)` one after the other. -/
def Tiles : ℕ → List (Tile κ) → ℕ → Prop
  | lo, [], hi => lo = hi
  | lo, tile :: rest, hi =>
      tile.start = lo ∧ 0 < tile.count ∧ Tiles tile.stop rest hi

@[simp] theorem tiles_nil (lo hi : ℕ) :
    Tiles lo ([] : List (Tile κ)) hi ↔ lo = hi := Iff.rfl

@[simp] theorem tiles_cons (lo hi : ℕ) (tile : Tile κ)
    (rest : List (Tile κ)) :
    Tiles lo (tile :: rest) hi ↔
      tile.start = lo ∧ 0 < tile.count ∧ Tiles tile.stop rest hi := Iff.rfl

theorem tiles_append {lo hi : ℕ} {l l' : List (Tile κ)} :
    Tiles lo (l ++ l') hi ↔ ∃ mid, Tiles lo l mid ∧ Tiles mid l' hi := by
  induction l generalizing lo with
  | nil => simp
  | cons tile rest ih =>
      simp only [List.cons_append, tiles_cons, ih]
      constructor
      · rintro ⟨hstart, hcount, mid, hrest, hl'⟩
        exact ⟨mid, ⟨hstart, hcount, hrest⟩, hl'⟩
      · rintro ⟨mid, ⟨hstart, hcount, hrest⟩, hl'⟩
        exact ⟨hstart, hcount, mid, hrest, hl'⟩

theorem Tiles.le {lo hi : ℕ} {l : List (Tile κ)} (h : Tiles lo l hi) :
    lo ≤ hi := by
  induction l generalizing lo with
  | nil => exact le_of_eq h
  | cons tile rest ih =>
      have hrest := ih h.2.2
      have hstart := h.1
      simp only [Tile.stop] at hrest
      omega

theorem Tiles.ends_eq {a b c d : ℕ} {l : List (Tile κ)} (hl : l ≠ [])
    (h : Tiles a l b) (h' : Tiles c l d) : a = c ∧ b = d := by
  induction l generalizing a c with
  | nil => exact absurd rfl hl
  | cons tile rest ih =>
      refine ⟨h.1.symm.trans h'.1, ?_⟩
      cases rest with
      | nil => exact h.2.2.symm.trans h'.2.2
      | cons other rest => exact (ih (by simp) h.2.2 h'.2.2).2

theorem Tiles.bounds {lo hi : ℕ} {l : List (Tile κ)} (h : Tiles lo l hi)
    {tile : Tile κ} (hmem : tile ∈ l) :
    lo ≤ tile.start ∧ 0 < tile.count ∧ tile.stop ≤ hi := by
  obtain ⟨before, after, rfl⟩ := List.append_of_mem hmem
  obtain ⟨mid, hbefore, hstart, hcount, hafter⟩ := tiles_append.mp h
  exact ⟨hstart ▸ hbefore.le, hcount, hafter.le⟩

/-- Around a tile, the earlier tiles end before it and the later ones start
after it. -/
theorem Tiles.split {lo hi : ℕ} {before after : List (Tile κ)}
    {tile : Tile κ} (h : Tiles lo (before ++ tile :: after) hi) :
    Tiles lo before tile.start ∧ 0 < tile.count ∧
      Tiles tile.stop after hi := by
  obtain ⟨mid, hbefore, hstart, hcount, hafter⟩ := tiles_append.mp h
  exact ⟨hstart ▸ hbefore, hcount, hafter⟩

theorem Tiles.eq_of_start {lo hi : ℕ} {l : List (Tile κ)}
    (h : Tiles lo l hi) {tile tile' : Tile κ} (hmem : tile ∈ l)
    (hmem' : tile' ∈ l) (hstart : tile.start = tile'.start) :
    tile = tile' := by
  obtain ⟨before, after, rfl⟩ := List.append_of_mem hmem
  obtain ⟨hbefore, hcount, hafter⟩ := h.split
  rw [List.mem_append, List.mem_cons] at hmem'
  rcases hmem' with hb | rfl | ha
  · have hbounds := hbefore.bounds hb
    simp only [Tile.stop] at hbounds
    omega
  · rfl
  · have hbounds := hafter.bounds ha
    simp only [Tile.stop] at hbounds
    omega

/-- Tiles that share an index are the same tile. -/
theorem Tiles.eq_of_index {lo hi : ℕ} {l : List (Tile κ)}
    (h : Tiles lo l hi) {tile tile' : Tile κ} (hmem : tile ∈ l)
    (hmem' : tile' ∈ l) {index : ℕ}
    (hindex : tile.start ≤ index ∧ index < tile.stop)
    (hindex' : tile'.start ≤ index ∧ index < tile'.stop) :
    tile = tile' := by
  rcases List.append_of_mem hmem with ⟨before, after, rfl⟩
  rcases h.split with ⟨hbefore, -, hafter⟩
  rw [List.mem_append, List.mem_cons] at hmem'
  rcases hmem' with hb | rfl | ha
  · have hbounds := hbefore.bounds hb
    omega
  · rfl
  · have hbounds := hafter.bounds ha
    omega

theorem Tiles.exists_tile {lo hi : ℕ} {l : List (Tile κ)}
    (h : Tiles lo l hi) {index : ℕ} (hlo : lo ≤ index) (hhi : index < hi) :
    ∃ tile ∈ l, tile.start ≤ index ∧ index < tile.stop := by
  induction l generalizing lo with
  | nil =>
      have heq : lo = hi := h
      omega
  | cons tile rest ih =>
      obtain ⟨hstart, hcount, hrest⟩ := h
      by_cases hindex : index < tile.stop
      · exact ⟨tile, by simp, by omega, hindex⟩
      · obtain ⟨found, hfound, hrange⟩ := ih hrest (by omega)
        exact ⟨found, by simp [hfound], hrange⟩

/-- The tile that ends where another one starts is the one listed just
before it. -/
theorem Tiles.exists_pred {lo hi : ℕ} {before after : List (Tile κ)}
    {tile : Tile κ} (h : Tiles lo (before ++ tile :: after) hi)
    (hlo : lo < tile.start) :
    ∃ earlier pred, before = earlier ++ [pred] ∧
      pred.stop = tile.start := by
  obtain ⟨hbefore, -, -⟩ := h.split
  cases before using List.reverseRecOn with
  | nil =>
      have heq : lo = tile.start := hbefore
      omega
  | append_singleton earlier pred _ =>
      obtain ⟨mid, -, -, -, hstop⟩ := tiles_append.mp hbefore
      exact ⟨earlier, pred, rfl, hstop⟩

/-- The tile that starts where another one ends is the one listed just
after it. -/
theorem Tiles.exists_succ {lo hi : ℕ} {before after : List (Tile κ)}
    {tile : Tile κ} (h : Tiles lo (before ++ tile :: after) hi)
    (hhi : tile.stop < hi) :
    ∃ succ later, after = succ :: later ∧ succ.start = tile.stop := by
  obtain ⟨-, -, hafter⟩ := h.split
  cases after with
  | nil =>
      have heq : tile.stop = hi := hafter
      omega
  | cons succ later => exact ⟨succ, later, rfl, hafter.1⟩

theorem Tiles.replace {lo hi : ℕ} {before middle middle' after : List (Tile κ)}
    (h : Tiles lo (before ++ middle ++ after) hi)
    (hmiddle : ∀ a b, Tiles a middle b → Tiles a middle' b) :
    Tiles lo (before ++ middle' ++ after) hi := by
  rw [List.append_assoc] at h ⊢
  obtain ⟨a, hbefore, hrest⟩ := tiles_append.mp h
  obtain ⟨b, hmid, hafter⟩ := tiles_append.mp hrest
  exact tiles_append.mpr ⟨a, hbefore,
    tiles_append.mpr ⟨b, hmiddle a b hmid, hafter⟩⟩

theorem Tiles.outside {lo hi : ℕ} {before middle after : List (Tile κ)}
    (h : Tiles lo (before ++ middle ++ after) hi) {other : Tile κ}
    (hother : other ∈ before ∨ other ∈ after) {tile : Tile κ}
    (htile : tile ∈ middle) :
    other.stop ≤ tile.start ∨ tile.stop ≤ other.start := by
  rw [List.append_assoc] at h
  obtain ⟨a, hbefore, hrest⟩ := tiles_append.mp h
  obtain ⟨b, hmid, hafter⟩ := tiles_append.mp hrest
  have hbounds := hmid.bounds htile
  rcases hother with hb | ha
  · have := hbefore.bounds hb
    omega
  · have := hafter.bounds ha
    omega

/-- Tiles that cover a nonempty interval fix where the tiles around them
end and start. -/
theorem Tiles.around {lo hi b c : ℕ} {before middle after : List (Tile κ)}
    (h : Tiles lo (before ++ middle ++ after) hi) (hmid : Tiles b middle c)
    (hlt : b < c) : Tiles lo before b ∧ Tiles c after hi := by
  have hne : middle ≠ [] := by
    rintro rfl
    have heq : b = c := hmid
    omega
  rw [List.append_assoc] at h
  obtain ⟨b', hbefore, hrest⟩ := tiles_append.mp h
  obtain ⟨c', hmid', hafter⟩ := tiles_append.mp hrest
  obtain ⟨rfl, rfl⟩ := Tiles.ends_eq hne hmid hmid'
  exact ⟨hbefore, hafter⟩

end IntervalTiling
