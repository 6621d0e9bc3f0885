import TraceViewer.Search.Score

namespace TraceViewer.Search

namespace Matrix

theorem get_set_self {cells : Matrix} {i : Nat} (h : i < cells.size) (c : Cell) :
    get (cells.setIfInBounds i c) i = c := by
  simp [get, Array.getD_eq_getD_getElem?, h]

theorem get_set_ne {i j : Nat} (h : i ≠ j) (cells : Matrix) (c : Cell) :
    get (cells.setIfInBounds i c) j = cells.get j := by
  simp [get, Array.getD_eq_getD_getElem?, Array.getElem?_setIfInBounds_ne h]

theorem size_resize (cells : Matrix) (size : Nat) : (cells.resize size).size = size := by
  simp [resize]
  omega

/-- No reward in a matrix is greater than that of a first character. -/
def Tame (cells : Matrix) : Prop :=
  ∀ i, (cells.get i).bonus ≤ 16

theorem tame_empty : Tame empty := by
  intro i
  simp [empty, get, Cell.blank]

theorem Tame.set {cells : Matrix} (h : cells.Tame) (i : Nat) {c : Cell} (hc : c.bonus ≤ 16) :
    Tame (cells.setIfInBounds i c) := by
  intro j
  by_cases hij : i = j
  · subst hij
    by_cases hi : i < cells.size
    · rwa [get_set_self hi]
    · rw [Array.setIfInBounds_eq_of_size_le (Nat.le_of_not_lt hi)]
      exact h i
  · rw [get_set_ne hij]
    exact h j

theorem get_resize (cells : Matrix) (size i : Nat) :
    (cells.resize size).get i = if i < min size cells.size then cells.get i else Cell.blank := by
  simp only [resize, get, Array.getD_eq_getD_getElem?, Array.getElem?_append,
    Array.take_eq_extract, Array.size_extract, Array.getElem?_extract, Array.getElem?_replicate]
  by_cases hi : i < min size cells.size
  · simp [hi]
  · simp only [Nat.sub_zero, hi, if_false]
    split <;> rfl

theorem Tame.resize {cells : Matrix} (h : cells.Tame) (size : Nat) :
    Tame (cells.resize size) := by
  intro i
  rw [get_resize]
  split
  · exact h i
  · decide

/-- What `prepare` leaves in the first row. -/
def opening : Cell :=
  ⟨hopeless, -1, 0⟩

theorem size_open (cells : Matrix) (n : Nat) :
    ((List.range n).foldl (fun cells j => cells.setIfInBounds j opening) cells).size =
      cells.size := by
  induction n with
  | zero => rfl
  | succ n ih => simp [List.range_succ, ih]

theorem get_open (cells : Matrix) (n i : Nat) :
    get ((List.range n).foldl (fun cells j => cells.setIfInBounds j opening) cells) i =
      if i < n ∧ i < cells.size then opening else cells.get i := by
  induction n with
  | zero => simp
  | succ n ih =>
    simp only [List.range_succ, List.foldl_append, List.foldl_cons, List.foldl_nil]
    by_cases hi : n = i
    · subst hi
      by_cases hc : n < cells.size
      · rw [get_set_self (by rwa [size_open]), if_pos ⟨Nat.lt_succ_self n, hc⟩]
      · rw [Array.setIfInBounds_eq_of_size_le (by rw [size_open]; omega), ih]
        simp [hc]
    · have hn : i < n + 1 ↔ i < n := by omega
      simp only [get_set_ne hi, ih, hn]

end Matrix

theorem prepare_eq (cols first : Nat) (cells : Matrix) :
    prepare cols first cells = (List.range cols).foldl
      (fun cells j => cells.setIfInBounds j Matrix.opening)
      ((cells.resize (2 * cols)).setIfInBounds (cols + first) Cell.blank) :=
  rfl

theorem size_prepare (cols first : Nat) (cells : Matrix) :
    (prepare cols first cells).size = 2 * cols := by
  rw [prepare_eq, Matrix.size_open, Array.size_setIfInBounds, Matrix.size_resize]

theorem get_prepare_top {cols first j : Nat} (h : j < cols) (cells : Matrix) :
    (prepare cols first cells).get j = Matrix.opening := by
  rw [prepare_eq, Matrix.get_open, Array.size_setIfInBounds, Matrix.size_resize]
  exact if_pos ⟨h, by omega⟩

theorem get_prepare_first {cols first : Nat} (h : first < cols) (cells : Matrix) :
    (prepare cols first cells).get (cols + first) = Cell.blank := by
  rw [prepare_eq, Matrix.get_open, if_neg (by omega), Matrix.get_set_self]
  rw [Matrix.size_resize]
  omega

theorem tame_prepare {cells : Matrix} (h : cells.Tame) (cols first : Nat) :
    (prepare cols first cells).Tame := by
  intro i
  rw [prepare_eq, Matrix.get_open]
  split
  · decide
  · exact (h.resize _).set _ (by decide) i

/-- The cell to the left of a place once the place is filled. -/
def leftCell (row : Row) (c : Char) (place : Int) (last : Cell) : Cell :=
  if row.same c row.char then { last with bonus := max (max last.bonus place) 4 } else last

/-- The cell to the right of a place once the place is filled, from the cells around it. -/
def rightCell (row : Row) (c : Char) (place : Int) (last current diagonal : Cell) : Cell :=
  let passed := max (last.ended - 4) (last.passed - 1)
  if row.same c row.char then
    { current with
      ended := max (diagonal.ended + max (max last.bonus place) 4) (diagonal.passed + place) +
        (if c = row.char then 16 else 14)
      passed := passed }
  else ⟨hopeless, passed, 0⟩

section
variable {row : Row} {j : Nat} {c : Char} {place : Int} {cells : Matrix}

theorem size_fillCell : (fillCell row j c place cells).size = cells.size := by
  unfold fillCell
  simp only
  split <;> simp

theorem get_fillCell_right (h : row.start + j + 1 < cells.size) :
    (fillCell row j c place cells).get (row.start + j + 1) =
      rightCell row c place (cells.get (row.start + j)) (cells.get (row.start + j + 1))
        (cells.get (row.before + j)) := by
  simp only [fillCell, rightCell]
  split
  · rw [Matrix.get_set_self (by simpa using h)]
  · rw [Matrix.get_set_self h]

theorem get_fillCell_left (h : row.start + j < cells.size) :
    (fillCell row j c place cells).get (row.start + j) =
      leftCell row c place (cells.get (row.start + j)) := by
  simp only [fillCell, leftCell]
  split
  · rw [Matrix.get_set_ne (by omega), Matrix.get_set_self h]
  · rw [Matrix.get_set_ne (by omega)]

theorem get_fillCell_other {k : Nat} (hl : k ≠ row.start + j) (hr : k ≠ row.start + j + 1) :
    (fillCell row j c place cells).get k = cells.get k := by
  unfold fillCell
  simp only
  split
  · rw [Matrix.get_set_ne hr.symm, Matrix.get_set_ne hl.symm]
  · rw [Matrix.get_set_ne hr.symm]

theorem tame_fillCell (h : cells.Tame) (hp : place ≤ 16) :
    (fillCell row j c place cells).Tame := by
  unfold fillCell
  simp only
  split
  · refine Matrix.Tame.set (h.set _ ?_) _ ?_
    · have := h (row.start + j)
      simp only
      omega
    · exact h (row.start + j + 1)
  · exact h.set _ (show (0 : Int) ≤ 16 by decide)

end

variable {row : Row} {cells : Matrix}

theorem tame_fillRow (h : cells.Tame) (j : Nat) {text : List (Char × Int)}
    (ht : ∀ c ∈ text, c.2 ≤ 16) : (fillRow row j text cells).Tame := by
  induction text generalizing j cells with
  | nil => exact h
  | cons c text ih =>
    refine ih (tame_fillCell h (ht c (by simp))) (j + 1) ?_
    intro d hd
    exact ht d (by simp [hd])

theorem tame_fillRows (same : Char → Char → Bool) (cols i : Nat) {text : List (Char × Int)}
    (ht : ∀ c ∈ text, c.2 ≤ 16) (pairs : List (Char × Nat)) {cells : Matrix} (h : cells.Tame) :
    (fillRows same cols text i pairs cells).Tame := by
  induction pairs generalizing i cells with
  | nil => exact h
  | cons pair pairs ih =>
    obtain ⟨p, j⟩ := pair
    apply ih
    apply tame_fillRow h
    intro c hc
    exact ht c (List.mem_of_mem_drop hc)

end TraceViewer.Search
