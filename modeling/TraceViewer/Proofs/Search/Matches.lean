import Mathlib.Data.List.Chain
import TraceViewer.Search.Score

namespace TraceViewer.Search

theorem startBonus_bounds (before own : CharClass) :
    0 ≤ startBonus before own ∧ startBonus before own ≤ 8 := by
  cases before <;> cases own <;> decide

theorem bonusesAfter_bounds (before : CharClass) (cs : List Char) :
    ∀ c ∈ bonusesAfter before cs, 0 ≤ c.2 ∧ c.2 ≤ 16 := by
  induction cs generalizing before with
  | nil => simp [bonusesAfter]
  | cons c cs ih =>
    intro d hd
    rcases List.mem_cons.mp hd with rfl | hd
    · have := startBonus_bounds before (.of c)
      simp only
      omega
    · exact ih _ d hd

theorem bonuses_bounds (cs : List Char) : ∀ c ∈ bonuses cs, 0 ≤ c.2 ∧ c.2 ≤ 16 := by
  cases cs with
  | nil => simp [bonuses]
  | cons c cs =>
    intro d hd
    rcases List.mem_cons.mp hd with rfl | hd
    · have := startBonus_bounds .empty (.of c)
      simp only
      omega
    · exact bonusesAfter_bounds _ cs d hd

theorem map_fst_bonusesAfter (before : CharClass) (cs : List Char) :
    (bonusesAfter before cs).map Prod.fst = cs := by
  induction cs generalizing before with
  | nil => rfl
  | cons c cs ih => simp [bonusesAfter, ih]

/-- The rewards stand beside the characters of the text, in order. -/
theorem map_fst_bonuses (cs : List Char) : (bonuses cs).map Prod.fst = cs := by
  cases cs with
  | nil => rfl
  | cons c cs => simp [bonuses, map_fst_bonusesAfter]

theorem length_bonuses (cs : List Char) : (bonuses cs).length = cs.length := by
  rw [← List.length_map (f := Prod.fst), map_fst_bonuses]

theorem toLower_toLower (c : Char) : c.toLower.toLower = c.toLower := by
  by_cases h : 'A'.val ≤ c.val ∧ c.val ≤ 'Z'.val
  · have hv : c.toLower.val = c.val + ('a'.val - 'A'.val) := congrArg Char.val (dif_pos h)
    apply dif_neg
    rw [hv]
    simp only [ge_iff_le, UInt32.le_iff_toNat_le, UInt32.toNat_add] at h ⊢
    simp at h ⊢
    omega
  · have hc : c.toLower = c := dif_neg h
    rw [hc, hc]

/-- Two characters found at one place are the same up to case. -/
theorem toLower_eq_of_sameChar {exact : Bool} {c p q : Char} (hp : sameChar exact c p = true)
    (hq : sameChar exact c q = true) : p.toLower = q.toLower := by
  cases exact with
  | true =>
    simp only [sameChar, if_true, beq_iff_eq] at hp hq
    rw [← hp, ← hq]
  | false =>
    simp only [sameChar, Bool.false_eq_true, if_false, beq_iff_eq] at hp hq
    rw [← hp, ← hq]

theorem getElem?_sub_succ {α : Type} {c : α} {cs : List α} {j k : Nat} (h : j + 1 ≤ k) :
    (c :: cs)[k - j]? = cs[k - (j + 1)]? := by
  rw [show k - j = (k - (j + 1)) + 1 by omega, List.getElem?_cons_succ]

/-- The places found are as many as the pattern has characters, rise, and show those characters. -/
theorem firstMatches_spec {same : Char → Char → Bool} {j : Nat} {cs ps : List Char}
    {places : List Nat} (h : firstMatches same j cs ps = some places) :
    places.length = ps.length ∧ (∀ f ∈ places, j ≤ f) ∧ places.Pairwise (· < ·) ∧
      ∀ x ∈ ps.zip places, ∃ c, cs[x.2 - j]? = some c ∧ same c x.1 = true := by
  fun_induction firstMatches same j cs ps generalizing places with
  | case1 j cs =>
    obtain rfl := Option.some.inj h
    simp
  | case2 => cases h
  | case3 j c cs p ps hs ih =>
    obtain ⟨later, hl, rfl⟩ := Option.map_eq_some_iff.mp h
    obtain ⟨hlen, hlow, hrise, hshow⟩ := ih hl
    refine ⟨by simp [hlen], ?_, ?_, ?_⟩
    · intro f hf
      rcases List.mem_cons.mp hf with rfl | hf
      · exact Nat.le_refl _
      · exact Nat.le_of_succ_le (hlow f hf)
    · exact .cons (fun f hf => hlow f hf) hrise
    · intro x hx
      rcases List.mem_cons.mp hx with rfl | hx
      · exact ⟨c, by simp, hs⟩
      · rw [getElem?_sub_succ (hlow x.2 (List.of_mem_zip hx).2)]
        exact hshow x hx
  | case4 j c cs p ps hs ih =>
    obtain ⟨hlen, hlow, hrise, hshow⟩ := ih h
    refine ⟨hlen, fun f hf => Nat.le_of_succ_le (hlow f hf), hrise, ?_⟩
    intro x hx
    rw [getElem?_sub_succ (hlow x.2 (List.of_mem_zip hx).2)]
    exact hshow x hx

end TraceViewer.Search
