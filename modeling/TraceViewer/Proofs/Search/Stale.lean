import TraceViewer.Proofs.Search.Cells
import TraceViewer.Proofs.Search.Matches

namespace TraceViewer.Search

/-- Whether the character that leads to a column is the one given. -/
def leads (same : Char → Char → Bool) (p : Char) (text : List (Char × Int)) : Nat → Bool
  | 0 => false
  | j + 1 => (text[j]?).any fun c => same c.1 p

/-- The best score at a column is far from hopeless: it loses at most one for each column passed. -/
def Cell.Alive (k : Nat) (c : Cell) : Prop :=
  3 - (k : Int) ≤ c.ended ∨ -1 - (k : Int) ≤ c.passed

/-- What two runs have in common at a column of a finished row, whatever cells they began with. The
reward may be left over from an earlier text only where a match may end. -/
structure Settled (k : Nat) (met : Bool) (x y : Cell) : Prop where
  ended : x.ended = y.ended
  passed : x.passed = y.passed
  bonus : met = true ∨ x.bonus = y.bonus
  idle : met = true ∨ x.ended = hopeless
  alive : x.Alive k

theorem Settled.left {k : Nat} {met : Bool} {x y : Cell} (h : Settled k met x y) (row : Row)
    (c : Char) (place : Int) : Settled k met (leftCell row c place x) (leftCell row c place y) := by
  unfold leftCell
  split
  · refine ⟨h.ended, h.passed, ?_, h.idle, h.alive⟩
    rcases h.bonus with hm | hb
    · exact .inl hm
    · exact .inr (by rw [hb])
  · exact h

/-- A left-over reward does no harm beside a hopeless score: the other way to the cell is better. -/
theorem settled_right {row : Row} {c : Char} {place : Int} {j : Nat}
    {last last' current current' diagonal diagonal' : Cell}
    (hl : last.ended = last'.ended ∧ last.passed = last'.passed)
    (hd : diagonal.ended = diagonal'.ended ∧ diagonal.passed = diagonal'.passed)
    (hs : last.bonus = last'.bonus ∨ diagonal.ended = hopeless)
    (ha : diagonal.Alive j) (hc : row.same c row.char = true ∨ last.Alive j)
    (hb : last.bonus ≤ 16 ∧ last'.bonus ≤ 16) (hp : 0 ≤ place ∧ place ≤ 16) (hj : j < 32000) :
    Settled (j + 1) (row.same c row.char) (rightCell row c place last current diagonal)
      (rightCell row c place last' current' diagonal') := by
  obtain ⟨hle, hlp⟩ := hl
  obtain ⟨hde, hdp⟩ := hd
  unfold Cell.Alive at ha hc
  unfold rightCell
  by_cases hm : row.same c row.char = true
  · simp only [hm, if_true]
    refine ⟨?_, by rw [hle, hlp], .inl rfl, .inl rfl, .inl ?_⟩
    · simp only
      congr 1
      rcases hs with hs | hs
      · rw [hs, hde, hdp]
      · simp only [hopeless] at hs
        omega
    · simp only
      split <;> omega
  · rcases hc with hc | hc
    · exact absurd hc hm
    simp only [hm, Bool.false_eq_true, if_false]
    refine ⟨rfl, by rw [hle, hlp], .inr rfl, .inr rfl, .inr ?_⟩
    simp only
    omega

/-- A row and the one before it lie within the matrix, and do not overlap. -/
structure Row.Fits (row : Row) (len size : Nat) : Prop where
  room : row.start + len < size
  apart : row.start + len < row.before ∨ row.before + len < row.start

/-- Two runs in the middle of a row, which is filled from column `first` to column `j`. The row
before it is finished, and the cell at `first` is left from the row before that. -/
structure Filling (row : Row) (prev met : Nat → Bool) (len first j : Nat) (a b : Matrix) :
    Prop where
  before : ∀ k, first ≤ k → k ≤ len →
    Settled k (prev k) (a.get (row.before + k)) (b.get (row.before + k))
  done : ∀ k, first < k → k ≤ j →
    Settled k (met k) (a.get (row.start + k)) (b.get (row.start + k))
  edge : (a.get (row.start + first)).ended = (b.get (row.start + first)).ended ∧
    (a.get (row.start + first)).passed = (b.get (row.start + first)).passed
  fresh : j = first → (a.get (row.start + first)).bonus = (b.get (row.start + first)).bonus ∨
    (a.get (row.before + first)).ended = hopeless
  tame : a.Tame ∧ b.Tame
  size : a.size = 2 * (len + 1) ∧ b.size = 2 * (len + 1)
  fits : row.Fits len (2 * (len + 1))

namespace Filling

variable {row : Row} {prev met : Nat → Bool} {len first j : Nat} {a b : Matrix}

/-- The scores of the cell to the left of the next place are the same in both runs, and so is its
reward, unless it meets a hopeless score. -/
theorem last (h : Filling row prev met len first j a b) (hf : first ≤ j) (hj : j ≤ len)
    (ha : ∀ k, prev k = true → met k = false) :
    ((a.get (row.start + j)).ended = (b.get (row.start + j)).ended ∧
      (a.get (row.start + j)).passed = (b.get (row.start + j)).passed) ∧
    ((a.get (row.start + j)).bonus = (b.get (row.start + j)).bonus ∨
      (a.get (row.before + j)).ended = hopeless) := by
  rcases Nat.eq_or_lt_of_le hf with rfl | hf
  · exact ⟨h.edge, h.fresh rfl⟩
  · have hl := h.done j hf (Nat.le_refl j)
    have hd := h.before j (Nat.le_of_lt hf) hj
    refine ⟨⟨hl.ended, hl.passed⟩, ?_⟩
    rcases hl.bonus with hm | hb
    · rcases hd.idle with hp | hi
      · rw [ha j hp] at hm
        cases hm
      · exact .inr hi
    · exact .inl hb

theorem step (h : Filling row prev met len first j a b) (hf : first ≤ j) (hj : j < len)
    (hlen : len < 32000) (ha : ∀ k, prev k = true → met k = false) {c : Char} {place : Int}
    (hp : 0 ≤ place ∧ place ≤ 16) (hm : met (j + 1) = row.same c row.char)
    (hs : j = first → row.same c row.char = true) :
    Filling row prev met len first (j + 1) (fillCell row j c place a)
      (fillCell row j c place b) := by
  obtain ⟨hle, hlb⟩ := h.last hf (Nat.le_of_lt hj) ha
  obtain ⟨hsa, hsb⟩ := h.size
  obtain ⟨hroom, hap⟩ := h.fits
  have hd := h.before j hf (Nat.le_of_lt hj)
  refine ⟨?_, ?_, ?_, ?_, ?_, ?_, h.fits⟩
  · intro k hk hk'
    rw [get_fillCell_other (by omega) (by omega), get_fillCell_other (by omega) (by omega)]
    exact h.before k hk hk'
  · intro k hk hk'
    by_cases hkj : k = j + 1
    · subst hkj
      rw [← Nat.add_assoc, get_fillCell_right (by omega), get_fillCell_right (by omega), hm]
      refine settled_right hle ⟨hd.ended, hd.passed⟩ hlb hd.alive ?_ ⟨h.tame.1 _, h.tame.2 _⟩ hp
        (by omega)
      by_cases hjf : j = first
      · exact .inl (hs hjf)
      · exact .inr (h.done j (by omega) (Nat.le_refl j)).alive
    · have hkd := h.done k hk (by omega)
      by_cases hkl : k = j
      · subst hkl
        rw [get_fillCell_left (by omega), get_fillCell_left (by omega)]
        exact hkd.left row c place
      · rw [get_fillCell_other (by omega) (by omega), get_fillCell_other (by omega) (by omega)]
        exact hkd
  · by_cases hjf : j = first
    · subst hjf
      rw [get_fillCell_left (by omega), get_fillCell_left (by omega)]
      unfold leftCell
      split <;> exact h.edge
    · rw [get_fillCell_other (by omega) (by omega), get_fillCell_other (by omega) (by omega)]
      exact h.edge
  · intro hjf
    omega
  · exact ⟨tame_fillCell h.tame.1 hp.2, tame_fillCell h.tame.2 hp.2⟩
  · rw [size_fillCell, size_fillCell]
    exact h.size

/-- From the column where a row begins, both runs fill it to its end. -/
theorem finish {text rest : List (Char × Int)} (h : Filling row prev met text.length first j a b)
    (hr : text.drop j = rest) (hf : first ≤ j) (hj : j ≤ text.length) (hlen : text.length < 32000)
    (ha : ∀ k, prev k = true → met k = false) (hp : ∀ c ∈ text, 0 ≤ c.2 ∧ c.2 ≤ 16)
    (hm : met = leads row.same row.char text) (hs : met (first + 1) = true) :
    Filling row prev met text.length first text.length (fillRow row j rest a)
      (fillRow row j rest b) := by
  induction rest generalizing j a b with
  | nil =>
    obtain rfl : j = text.length := by
      have := List.drop_eq_nil_iff.mp hr
      omega
    exact h
  | cons c rest ih =>
    have hc : text[j]? = some c := by
      rw [← List.head?_drop, hr, List.head?_cons]
    have hj' : j < text.length := (List.getElem?_eq_some_iff.mp hc).1
    have hm' : met (j + 1) = row.same c.1 row.char := by
      rw [hm]
      simp [leads, hc]
    have hn := h.step hf hj' hlen ha (hp c (List.mem_of_getElem? hc)) hm' (by
      rintro rfl
      rw [← hm', hs])
    refine ih hn ?_ (by omega) hj'
    rw [← List.drop_drop, hr, List.drop_one, List.tail_cons]

/-- The finished row stands before the next one, which begins further to the right. -/
theorem next {row' : Row} {met' : Nat → Bool} {first' : Nat}
    (h : Filling row prev met len first len a b) (ha : ∀ k, prev k = true → met k = false)
    (hs : row'.start = row.before) (hb : row'.before = row.start) (hf : first < first')
    (hl : first' ≤ len) (hfit : row'.Fits len (2 * (len + 1))) :
    Filling row' met met' len first' first' a b := by
  have hd := h.before first' (Nat.le_of_lt hf) hl
  refine ⟨?_, ?_, ?_, ?_, h.tame, h.size, hfit⟩
  · intro k hk hk'
    rw [hb]
    exact h.done k (by omega) hk'
  · intro k hk hk'
    omega
  · rw [hs]
    exact ⟨hd.ended, hd.passed⟩
  · intro _
    rw [hs, hb]
    rcases hd.bonus with hp | hq
    · rcases (h.done first' hf hl).idle with hm | hi
      · rw [ha first' hp] at hm
        cases hm
      · exact .inr hi
    · exact .inl hq

end Filling

/-- The two rows of a matrix for a text, of which every other step fills one. -/
theorem fits_turn (p : Char) (same : Char → Char → Bool) (len i : Nat) :
    Row.Fits ⟨p, same, (i + 1) % 2 * (len + 1), i % 2 * (len + 1)⟩ len (2 * (len + 1)) := by
  rcases Nat.mod_two_eq_zero_or_one i with hi | hi
  · have hi' : (i + 1) % 2 = 1 := by omega
    constructor <;> simp only [hi, hi'] <;> omega
  · have hi' : (i + 1) % 2 = 0 := by omega
    constructor <;> simp only [hi, hi'] <;> omega

/-- A pattern's characters with the places where a text shows them, such that neighbours differ. -/
def Traced (same : Char → Char → Bool) (text : List (Char × Int)) (pairs : List (Char × Nat)) :
    Prop :=
  pairs.IsChain (fun x y => x.2 < y.2 ∧ ∀ c, same c x.1 = true → same c y.1 = false) ∧
    ∀ x ∈ pairs, leads same x.1 text (x.2 + 1) = true

theorem lt_of_leads {same : Char → Char → Bool} {p : Char} {text : List (Char × Int)} {j : Nat}
    (h : leads same p text (j + 1) = true) : j < text.length := by
  simp only [leads, Option.any_eq_true] at h
  obtain ⟨c, hc, _⟩ := h
  exact (List.getElem?_eq_some_iff.mp hc).1

theorem Traced.lt {same : Char → Char → Bool} {text : List (Char × Int)}
    {pairs : List (Char × Nat)} (h : Traced same text pairs) {j : Nat}
    (hj : j ∈ pairs.map Prod.snd) : j < text.length := by
  obtain ⟨x, hx, rfl⟩ := List.mem_map.mp hj
  exact lt_of_leads (h.2 x hx)

theorem leads_apart {same : Char → Char → Bool} {p q : Char} {text : List (Char × Int)}
    (h : ∀ c, same c p = true → same c q = false) (k : Nat) (hk : leads same p text k = true) :
    leads same q text k = false := by
  cases k with
  | zero => rfl
  | succ j =>
    simp only [leads, Option.any_eq_true] at hk
    obtain ⟨c, hc, hp⟩ := hk
    simp [leads, hc, h c.1 hp]

theorem fillRows_ended {same : Char → Char → Bool} {text : List (Char × Int)}
    (hlen : text.length < 32000) (hp : ∀ c ∈ text, 0 ≤ c.2 ∧ c.2 ≤ 16)
    {i : Nat} {p : Char} {first : Nat} {pairs : List (Char × Nat)} {prev : Nat → Bool}
    {a b : Matrix} (ht : Traced same text ((p, first) :: pairs))
    (ha : ∀ k, prev k = true → leads same p text k = false)
    (h : Filling ⟨p, same, (i + 1) % 2 * (text.length + 1), i % 2 * (text.length + 1)⟩ prev
      (leads same p text) text.length first first a b) :
    ∀ k, (pairs.map Prod.snd).getLastD first ≤ k → k ≤ text.length →
      ((fillRows same (text.length + 1) text i ((p, first) :: pairs) a).get
          ((i + (pairs.length + 1)) % 2 * (text.length + 1) + k)).ended =
        ((fillRows same (text.length + 1) text i ((p, first) :: pairs) b).get
          ((i + (pairs.length + 1)) % 2 * (text.length + 1) + k)).ended := by
  induction pairs generalizing i p first prev a b with
  | nil =>
    have hs := ht.2 (p, first) (by simp)
    have hn := h.finish rfl (Nat.le_refl first) (Nat.le_of_lt (lt_of_leads hs)) hlen ha hp rfl hs
    intro k hk hk'
    rcases Nat.eq_or_lt_of_le hk with rfl | hk
    · exact hn.edge.1
    · exact (hn.done k hk hk').ended
  | cons q pairs ih =>
    obtain ⟨q, second⟩ := q
    have hs := ht.2 (p, first) (by simp)
    have hs' := ht.2 (q, second) (by simp)
    have hn := h.finish rfl (Nat.le_refl first) (Nat.le_of_lt (lt_of_leads hs)) hlen ha hp rfl hs
    obtain ⟨⟨hlt, hne⟩, hc⟩ := List.isChain_cons_cons.mp ht.1
    have hturn : (i + 1 + 1) % 2 = i % 2 := by omega
    have he := ih ⟨hc, fun x hx => ht.2 x (List.mem_cons_of_mem _ hx)⟩ (leads_apart hne)
      (hn.next ha (congrArg (· * (text.length + 1)) hturn) rfl hlt
        (Nat.le_of_lt (lt_of_leads hs')) (fits_turn q same text.length (i + 1)))
    intro k hk hk'
    rw [List.map_cons, List.getLastD_cons] at hk
    rw [List.length_cons, show i + (pairs.length + 1 + 1) = i + 1 + (pairs.length + 1) by omega]
    exact he k hk hk'

/-- No two neighbours in a pattern are equal up to ASCII case. -/
def Varied (pattern : List Char) : Prop :=
  pattern.IsChain fun a b => a.toLower ≠ b.toLower

theorem traced_of_firstMatches {exact : Bool} {cs pattern : List Char} {places : List Nat}
    (hv : Varied pattern) (h : firstMatches (sameChar exact) 0 cs pattern = some places) :
    Traced (sameChar exact) (bonuses cs) (pattern.zip places) := by
  obtain ⟨hlen, -, hrise, hshow⟩ := firstMatches_spec h
  constructor
  · rw [List.isChain_iff_getElem]
    intro i hi
    rw [List.length_zip, hlen, Nat.min_self] at hi
    simp only [List.getElem_zip]
    refine ⟨List.pairwise_iff_getElem.mp hrise i (i + 1) (by omega) (by omega) (by omega), ?_⟩
    intro c hc
    rw [Bool.eq_false_iff]
    intro hc'
    exact List.isChain_iff_getElem.mp hv i hi (toLower_eq_of_sameChar hc hc')
  · intro x hx
    obtain ⟨c, hc, hs⟩ := hshow x hx
    rw [Nat.sub_zero, ← map_fst_bonuses cs, List.getElem?_map, Option.map_eq_some_iff] at hc
    obtain ⟨d, hd, rfl⟩ := hc
    simp [leads, hd, hs]

/-- The rows that a text is first prepared with are the same, whatever cells were left. -/
theorem filling_prepare {same : Char → Char → Bool} {p : Char} {met : Nat → Bool} {len first : Nat}
    (hf : first ≤ len) {a b : Matrix} (ha : a.Tame) (hb : b.Tame) :
    Filling ⟨p, same, (0 + 1) % 2 * (len + 1), 0 % 2 * (len + 1)⟩ (fun _ => false) met len first
      first (prepare (len + 1) first a) (prepare (len + 1) first b) := by
  have hx (x : Matrix) : (prepare (len + 1) first x).get ((0 + 1) % 2 * (len + 1) + first) =
      Cell.blank := by
    rw [Nat.zero_add, Nat.one_mod, Nat.one_mul, get_prepare_first (by omega)]
  refine ⟨?_, ?_, ?_, ?_, ⟨tame_prepare ha _ _, tame_prepare hb _ _⟩,
    ⟨size_prepare _ _ _, size_prepare _ _ _⟩, fits_turn p same len 0⟩
  · intro k hk hk'
    have hz : 0 % 2 * (len + 1) + k = k := by omega
    simp only [hz, get_prepare_top (show k < len + 1 by omega)]
    refine ⟨rfl, rfl, .inr rfl, .inr rfl, .inr ?_⟩
    simp only [Matrix.opening]
    omega
  · intro k hk hk'
    omega
  · simp only [hx, and_self]
  · intro _
    simp only [hx, true_or]

theorem bestEnd_congr {a b : Matrix} {start size : Nat} (hs : 0 < size)
    (h : ∀ k, k < size → (a.get (start + k)).ended = (b.get (start + k)).ended) :
    bestEnd a start size = bestEnd b start size := by
  unfold bestEnd
  rw [show (a.get start).ended = (b.get start).ended from h 0 hs]
  apply List.foldl_ext
  intro best k hk
  rw [h k (List.mem_range.mp hk)]

/-- The cells that other texts have left do not change the score of a text. -/
theorem score_eq {text pattern : List Char} (hv : Varied pattern) (hlen : text.length < 32000)
    {a b : Matrix} (ha : a.Tame) (hb : b.Tame) :
    (score text pattern a).1 = (score text pattern b).1 := by
  unfold score
  simp only
  split
  · rfl
  · rfl
  · rename_i first later hm
    obtain ⟨hcount, -, -, -⟩ := firstMatches_spec hm
    cases pattern with
    | nil => cases hcount
    | cons p ps =>
      have ht := traced_of_firstMatches hv hm
      have hl := length_bonuses text
      have hmap : ((p :: ps).zip (first :: later)).map Prod.snd = first :: later :=
        List.map_snd_zip (Nat.le_of_eq hcount)
      have hlast : later.getLastD first < (bonuses text).length :=
        ht.lt (by rw [hmap]; exact List.getLastD_mem_cons)
      have hfirst : first < (bonuses text).length := ht.lt (by rw [hmap]; simp)
      rw [List.zip_cons_cons] at ht hmap ⊢
      have hps : (ps.zip later).map Prod.snd = later := (List.cons.inj hmap).2
      have hsize : (ps.zip later).length = ps.length := by
        rw [List.length_zip, Nat.succ.inj hcount, Nat.min_self]
      apply congrArg some
      refine bestEnd_congr (Nat.sub_pos_of_lt (by omega)) ?_
      intro k hk
      have he := fillRows_ended (by omega) (bonuses_bounds text) ht (by simp)
        (filling_prepare (Nat.le_of_lt hfirst) ha hb) (later.getLastD first + k)
        (by rw [hps]; omega) (by omega)
      rw [Nat.zero_add, hsize, hl] at he
      rw [Nat.add_assoc]
      exact he

theorem tame_score (text pattern : List Char) {cells : Matrix} (h : cells.Tame) :
    (score text pattern cells).2.Tame := by
  unfold score
  simp only
  split
  · exact h
  · exact h
  · exact tame_fillRows _ _ _ (fun c hc => (bonuses_bounds text c hc).2) _ (tame_prepare h _ _)

theorem Varied.toLower {pattern : List Char} (h : Varied pattern) :
    Varied (pattern.map Char.toLower) := by
  simpa only [Varied, List.isChain_map, toLower_toLower] using h

theorem scoreText_eq {text query : String} (hv : Varied query.toList)
    (hlen : text.toList.length < 32000) {a b : Matrix} (ha : a.Tame) (hb : b.Tame) :
    (scoreText text query a).1 = (scoreText text query b).1 := by
  have he := score_eq hv hlen ha hb
  have hta := tame_score text.toList query.toList ha
  have htb := tame_score text.toList query.toList hb
  unfold scoreText
  rcases hx : score text.toList query.toList a with ⟨x, a'⟩
  rcases hy : score text.toList query.toList b with ⟨y, b'⟩
  rw [hx, hy] at he
  rw [hx] at hta
  rw [hy] at htb
  obtain rfl : x = y := he
  cases x with
  | some s => rfl
  | none => exact score_eq hv.toLower (by simpa using hlen) hta htb

/-- Where a query repeats a letter, a reward that the text before left behind is added again. -/
example : scoreTexts "aab" ["aa b", "aaab"] Matrix.empty = [some 71, some 67] ∧
    scoreTexts "aab" ["aaab"] Matrix.empty = [some 63] := by
  decide +kernel

theorem tame_scoreText (text query : String) {cells : Matrix} (h : cells.Tame) :
    (scoreText text query cells).2.Tame := by
  have ht := tame_score text.toList query.toList h
  unfold scoreText
  split
  · rename_i hs
    rwa [hs] at ht
  · rename_i hs
    rw [hs] at ht
    exact tame_score _ _ ht

end TraceViewer.Search
