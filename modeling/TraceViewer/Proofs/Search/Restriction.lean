import Mathlib.Data.List.GetD
import TraceViewer.Proofs.Search.Stale
import TraceViewer.Search.Filter

namespace TraceViewer.Search

/-- The place of an entry with the score that a new matcher gives it. -/
def Hit.alone? (query : String) (entry : Entry) (index : Nat) : Option Hit :=
  (scoreEntry query entry Matrix.empty).1.map (Hit.mk index)

/-- The hits among entries with their places, each scored by a matcher of its own. -/
def hitsAlone (query : String) (entries : List (Entry × Nat)) : List Hit :=
  entries.filterMap fun x => Hit.alone? query x.1 x.2

theorem scoreEntry_eq {query : String} {entry : Entry} (hv : Varied query.toList)
    (hl : entry.label.toList.length < 32000) (ht : entry.title.toList.length < 32000)
    {a b : Matrix} (ha : a.Tame) (hb : b.Tame) :
    (scoreEntry query entry a).1 = (scoreEntry query entry b).1 := by
  simp only [scoreEntry]
  rw [scoreText_eq hv hl ha hb, scoreText_eq hv ht (tame_scoreText _ _ ha) (tame_scoreText _ _ hb)]

theorem tame_scoreEntry (query : String) (entry : Entry) {cells : Matrix} (h : cells.Tame) :
    (scoreEntry query entry cells).2.Tame :=
  tame_scoreText _ _ (tame_scoreText _ _ h)

/-- One matcher for all entries scores each of them as a new matcher would. -/
theorem hitsFrom_eq {query : String} {entries : List Entry} (hv : Varied query.toList)
    (hlen : ∀ e ∈ entries, e.label.toList.length < 32000 ∧ e.title.toList.length < 32000)
    (index : Nat) {cells : Matrix} (h : cells.Tame) :
    hitsFrom query index entries cells = hitsAlone query (entries.zipIdx index) := by
  induction entries generalizing index cells with
  | nil => rfl
  | cons entry rest ih =>
    obtain ⟨hl, ht⟩ := hlen entry (by simp)
    have hs := scoreEntry_eq hv hl ht h Matrix.tame_empty
    have hr := ih (fun e he => hlen e (by simp [he])) (index + 1)
      (tame_scoreEntry query entry h)
    simp only [hitsFrom, hr, hs, List.zipIdx_cons, List.filterMap_cons, Hit.alone?, hitsAlone]
    cases (scoreEntry query entry Matrix.empty).1 <;> rfl

theorem length_of_places {entries sub : List Entry} {places : List Nat}
    (hsub : places.map (entries[·]?) = sub.map some) : places.length = sub.length := by
  simpa using congrArg List.length hsub

theorem mem_of_places {entries sub : List Entry} {places : List Nat}
    (hsub : places.map (entries[·]?) = sub.map some) {e : Entry} (he : e ∈ sub) :
    e ∈ entries := by
  have hm : some e ∈ places.map (entries[·]?) := by
    rw [hsub]
    exact List.mem_map_of_mem he
  obtain ⟨i, -, hi⟩ := List.mem_map.mp hm
  exact List.mem_of_getElem? hi

theorem map_getElem?_cons {entry : Entry} {rest : List Entry} {places : List Nat} {index : Nat}
    (hlow : ∀ i ∈ places, index + 1 ≤ i) :
    places.map (fun i => (entry :: rest)[i - index]?) =
      places.map fun i => rest[i - (index + 1)]? := by
  apply List.map_congr_left
  intro i hi
  exact getElem?_sub_succ (hlow i hi)

/-- Picking entries by rising places leaves them beside their places. -/
theorem filter_zipIdx {entries sub : List Entry} {places : List Nat} {index : Nat}
    (hrise : places.Pairwise (· < ·)) (hlow : ∀ i ∈ places, index ≤ i)
    (hsub : places.map (fun i => entries[i - index]?) = sub.map some) :
    (entries.zipIdx index).filter (fun x => x.2 ∈ places) = sub.zip places := by
  induction entries generalizing index places sub with
  | nil =>
    cases sub with
    | nil => rfl
    | cons e sub => cases places <;> simp at hsub
  | cons entry rest ih =>
    by_cases hi : index ∈ places
    · cases places with
      | nil => cases hi
      | cons i places =>
        obtain ⟨hleast, hrise'⟩ := List.pairwise_cons.mp hrise
        obtain rfl : i = index := by
          rcases List.mem_cons.mp hi with rfl | hm
          · rfl
          · have := hleast index hm
            have := hlow i (by simp)
            omega
        cases sub with
        | nil => cases hsub
        | cons e sub =>
          obtain ⟨he, hsub'⟩ := List.cons.inj hsub
          obtain rfl : entry = e := by simpa using he
          rw [map_getElem?_cons hleast] at hsub'
          rw [List.zipIdx_cons, List.filter_cons_of_pos (by simp), List.zip_cons_cons,
            ← ih hrise' hleast hsub']
          congr 1
          apply List.filter_congr
          intro x hx
          have := List.le_snd_of_mem_zipIdx hx
          have : x.2 ≠ i := by omega
          simp [this]
    · have hlow' : ∀ i ∈ places, index + 1 ≤ i := by
        intro i hm
        have := hlow i hm
        have : i ≠ index := by
          rintro rfl
          exact hi hm
        omega
      rw [map_getElem?_cons hlow'] at hsub
      rw [List.zipIdx_cons, List.filter_cons_of_neg (by simpa using hi)]
      exact ih hrise hlow' hsub

/-- The same score at another place. -/
def Hit.moved (places : List Nat) (hit : Hit) : Hit :=
  ⟨places.getD hit.index 0, hit.score⟩

theorem Hit.before_iff {a b : Hit} :
    a.before b = true ↔ b.score < a.score ∨ a.score = b.score ∧ a.index ≤ b.index := by
  simp [Hit.before]

theorem Hit.before_trans (a b c : Hit) (hab : a.before b = true) (hbc : b.before c = true) :
    a.before c = true := by
  rw [Hit.before_iff] at hab hbc ⊢
  omega

theorem Hit.before_total (a b : Hit) : (a.before b || b.before a) = true := by
  rw [Bool.or_eq_true, Hit.before_iff, Hit.before_iff]
  omega

theorem Hit.before_antisymm {a b : Hit} (hab : a.before b = true) (hba : b.before a = true) :
    a = b := by
  rw [Hit.before_iff] at hab hba
  cases a
  cases b
  simp only [Hit.mk.injEq]
  simp only at hab hba
  omega

/-- Hits are ordered by themselves: leaving some out does not change the order of the others. -/
theorem filter_mergeSort (keep : Hit → Bool) (hits : List Hit) :
    (hits.mergeSort Hit.before).filter keep = (hits.filter keep).mergeSort Hit.before := by
  have hl := List.pairwise_mergeSort Hit.before_trans Hit.before_total hits
  have hr := List.pairwise_mergeSort Hit.before_trans Hit.before_total (hits.filter keep)
  have hp := ((List.mergeSort_perm hits Hit.before).filter keep).trans
    (List.mergeSort_perm (hits.filter keep) Hit.before).symm
  exact hp.eq_of_pairwise (fun _ _ _ _ => Hit.before_antisymm) (hl.filter keep) hr

theorem Hit.moved_before {places : List Nat} (hrise : places.Pairwise (· < ·)) {a b : Hit}
    (ha : a.index < places.length) (hb : b.index < places.length) :
    (a.moved places).before (b.moved places) = a.before b := by
  have hmono (i j : Nat) (hi : i < places.length) (hj : j < places.length) (h : i < j) :
      places.getD i 0 < places.getD j 0 := by
    rw [List.getD_eq_getElem _ _ hi, List.getD_eq_getElem _ _ hj]
    exact List.pairwise_iff_getElem.mp hrise i j hi hj h
  have hle : places.getD a.index 0 ≤ places.getD b.index 0 ↔ a.index ≤ b.index := by
    rcases Nat.lt_trichotomy a.index b.index with h | h | h
    · have := hmono _ _ ha hb h
      omega
    · rw [h]
      simp
    · have := hmono _ _ hb ha h
      omega
  rw [Bool.eq_iff_iff, Hit.before_iff, Hit.before_iff]
  simp only [Hit.moved, hle]

theorem map_moved_hitsAlone {query : String} {sub : List Entry} {places : List Nat}
    (h : places.length = sub.length) :
    (hitsAlone query sub.zipIdx).map (Hit.moved places) = hitsAlone query (sub.zip places) := by
  have hz : sub.zip places = sub.zipIdx.map fun x => (x.1, places.getD x.2 0) := by
    apply List.ext_getElem
    · simp [h]
    · intro i hi hi'
      have : i < places.length := by
        rw [List.length_zip] at hi
        omega
      simp [this]
  rw [hz, hitsAlone, hitsAlone, List.map_filterMap, List.filterMap_map]
  simp [Hit.alone?, Hit.moved, Function.comp_def]

theorem filter_hitsAlone (query : String) (places : List Nat) (entries : List (Entry × Nat)) :
    (hitsAlone query entries).filter (fun x => x.index ∈ places) =
      hitsAlone query (entries.filter fun x => x.2 ∈ places) := by
  rw [hitsAlone, hitsAlone, List.filter_filterMap, List.filterMap_filter]
  congr 1
  funext x
  unfold Hit.alone?
  cases (scoreEntry query x.1 Matrix.empty).1 <;> simp [Option.filter]

theorem index_lt_of_mem_hitsAlone {query : String} {sub : List Entry} {x : Hit}
    (h : x ∈ hitsAlone query sub.zipIdx) : x.index < sub.length := by
  obtain ⟨y, hy, hx⟩ := List.mem_filterMap.mp h
  obtain ⟨s, -, rfl⟩ := Option.map_eq_some_iff.mp hx
  exact List.snd_lt_of_mem_zipIdx hy

/-- Any choice of entries is found by a query in the order in which the whole list shows them. -/
theorem sort_hits_restricts {query : String} {entries sub : List Entry} {places : List Nat}
    (hv : Varied query.toList)
    (hlen : ∀ e ∈ entries, e.label.toList.length < 32000 ∧ e.title.toList.length < 32000)
    (hrise : places.Pairwise (· < ·)) (hsub : places.map (entries[·]?) = sub.map some) :
    ((hitsFrom query 0 sub Matrix.empty).mergeSort Hit.before).map (Hit.moved places) =
      ((hitsFrom query 0 entries Matrix.empty).mergeSort Hit.before).filter
        (fun x => x.index ∈ places) := by
  have hlen' := fun e he => hlen e (mem_of_places hsub he)
  rw [hitsFrom_eq hv hlen 0 Matrix.tame_empty, hitsFrom_eq hv hlen' 0 Matrix.tame_empty,
    filter_mergeSort, filter_hitsAlone, filter_zipIdx hrise (by simp) hsub,
    ← map_moved_hitsAlone (length_of_places hsub)]
  apply List.map_mergeSort
  intro a ha b hb
  have hcount := length_of_places hsub
  have := index_lt_of_mem_hitsAlone ha
  have := index_lt_of_mem_hitsAlone hb
  rw [Hit.moved_before hrise (by omega) (by omega)]

theorem getElem?_index {places : List Nat} {hit : Hit} (h : hit.index < places.length) :
    places[hit.index]? = some (hit.moved places).index := by
  simp [Hit.moved, h]

/-- A blank query finds whatever has been chosen. -/
theorem filter_range {entries sub : List Entry} {places : List Nat}
    (hrise : places.Pairwise (· < ·)) (hsub : places.map (entries[·]?) = sub.map some) :
    (List.range entries.length).filter (· ∈ places) = places := by
  have hcount := length_of_places hsub
  have hz := congrArg (List.map Prod.snd)
    (filter_zipIdx hrise (fun i _ => Nat.zero_le i) hsub)
  rw [List.map_snd_zip (Nat.le_of_eq hcount)] at hz
  rw [List.range_eq_range', ← List.zipIdx_map_snd 0 entries, List.filter_map]
  exact hz

theorem map_getElem?_range (places : List Nat) :
    (List.range places.length).map (places[·]?) = places.map some := by
  apply List.ext_getElem
  · simp
  · intro i hi _
    rw [List.length_map, List.length_range] at hi
    simp [hi]

/-- One matcher for all entries scores each of them as a new matcher would, and so a query finds
among any of them, picked by rising places, what it finds among all of them, in the same order. -/
theorem filter_restricts {query : String} {entries : List Entry}
    (hv : Varied (trimBlank query).toList)
    (hlen : ∀ e ∈ entries, e.label.toList.length < 32000 ∧ e.title.toList.length < 32000) :
    hitsFrom (trimBlank query) 0 entries Matrix.empty =
        hitsAlone (trimBlank query) entries.zipIdx ∧
      ∀ (places : List Nat) (sub : List Entry), places.Pairwise (· < ·) →
        places.map (entries[·]?) = sub.map some →
        (filter sub query).map (places[·]?) =
          ((filter entries query).filter (· ∈ places)).map some := by
  refine ⟨hitsFrom_eq hv hlen 0 Matrix.tame_empty, ?_⟩
  intro places sub hrise hsub
  have hcount := length_of_places hsub
  unfold filter
  simp only
  split
  · rw [filter_range hrise hsub, ← hcount, map_getElem?_range]
  · have hplace : ∀ x ∈ (hitsFrom (trimBlank query) 0 sub Matrix.empty).mergeSort Hit.before,
        places[x.index]? = some (x.moved places).index := by
      intro x hx
      rw [List.mem_mergeSort, hitsFrom_eq hv (fun e he => hlen e (mem_of_places hsub he)) 0
        Matrix.tame_empty] at hx
      exact getElem?_index (hcount ▸ index_lt_of_mem_hitsAlone hx)
    have hm := congrArg (List.map fun x => some x.index)
      (sort_hits_restricts hv hlen hrise hsub)
    rw [List.map_map] at hm
    rw [List.filter_map, List.map_map, List.map_map]
    exact (List.map_congr_left hplace).trans hm

theorem filter_restricts_map :
    let odom : Entry := ⟨"r2ta-node://node=odom", "node=odom", "odom", ⟨"node=odom", .node, none⟩⟩
    let map : Entry := ⟨"r2ta-node://node=Map", "node=Map", "Map", ⟨"node=Map", .node, none⟩⟩
    Varied (trimBlank " map ").toList ∧
      (∀ e ∈ [odom, map], e.label.toList.length < 32000 ∧ e.title.toList.length < 32000) ∧
      [1].map ([odom, map][·]?) = [map].map some ∧
      (filter [map] " map ").map ([1][·]?) =
        ((filter [odom, map] " map ").filter (· ∈ [1])).map some := by
  intro odom map
  have hv : Varied (trimBlank " map ").toList := by
    simp [Varied, trimBlank, Blank.trimChars, Blank.trimStart, isBlank]
  have hlen : ∀ e ∈ [odom, map], e.label.toList.length < 32000 ∧ e.title.toList.length < 32000 := by
    simp [odom, map]
  exact ⟨hv, hlen, rfl, (filter_restricts hv hlen).2 [1] [map] (by simp) rfl⟩

end TraceViewer.Search
