import TraceViewer.Proofs.Search.Restriction
import TraceViewer.Proofs.Text.Blank

namespace TraceViewer.Search

/-- What is compared of a character. -/
def key (exact : Bool) (c : Char) : Char :=
  if exact then c else c.toLower

theorem sameChar_iff {exact : Bool} {a b : Char} :
    sameChar exact a b = true ↔ key exact a = key exact b := by
  cases exact <;> simp [sameChar, key]

theorem toLower_key (exact : Bool) (c : Char) : (key exact c).toLower = c.toLower := by
  cases exact with
  | true => rfl
  | false => exact toLower_toLower c

theorem key_toLower (exact : Bool) (c : Char) : key exact c.toLower = c.toLower := by
  cases exact with
  | true => rfl
  | false => exact toLower_toLower c

/-- Taking each character where it is first met finds a pattern wherever it can be found. -/
theorem firstMatches_isSome_iff {exact : Bool} {j : Nat} {cs ps : List Char} :
    (firstMatches (sameChar exact) j cs ps).isSome ↔
      (ps.map (key exact)).Sublist (cs.map (key exact)) := by
  fun_induction firstMatches (sameChar exact) j cs ps with
  | case1 => simp
  | case2 => simp
  | case3 j c cs p ps hs ih =>
    rw [Option.isSome_map, ih, List.map_cons, List.map_cons, sameChar_iff.mp hs,
      List.cons_sublist_cons]
  | case4 j c cs p ps hs ih =>
    have hne : key exact p ≠ key exact c := fun he => hs (sameChar_iff.mpr he.symm)
    rw [ih, List.map_cons, List.map_cons, List.cons_sublist_cons']
    simp [hne]

/-- Whatever the cells hold, a pattern has a score just where it can be found. -/
theorem score_isSome_iff (text pattern : List Char) :
    ∃ exact, ∀ cells, (score text pattern cells).1.isSome ↔
      (pattern.map (key exact)).Sublist (text.map (key exact)) := by
  refine ⟨pattern.any fun c => 'A' ≤ c && c ≤ 'Z', fun cells => ?_⟩
  rw [← firstMatches_isSome_iff (j := 0)]
  unfold score
  simp only
  split <;> simp_all

/-- The characters of a query stand in a text in their order, up to ASCII case. -/
def Within (query text : String) : Prop :=
  (query.toList.map Char.toLower).Sublist (text.toList.map Char.toLower)

theorem scoreText_isSome_iff {text query : String} {cells : Matrix} :
    (scoreText text query cells).1.isSome ↔ Within query text := by
  obtain ⟨exact, hfirst⟩ := score_isSome_iff text.toList query.toList
  obtain ⟨exact', hlower⟩ :=
    score_isSome_iff (text.toList.map Char.toLower) (query.toList.map Char.toLower)
  have hcase : (query.toList.map (key exact)).Sublist (text.toList.map (key exact)) →
      Within query text := by
    intro h
    simpa [Within, Function.comp_def, toLower_key] using h.map Char.toLower
  simp only [List.map_map, Function.comp_def, key_toLower] at hlower
  unfold scoreText
  cases hs : score text.toList query.toList cells with
  | mk found left =>
    have hf := hfirst cells
    rw [hs] at hf
    cases found with
    | some s => exact iff_of_true rfl (hcase (hf.mp rfl))
    | none => exact hlower left

/-- A query finds an entry by its label or by its title. -/
def Finds (query : String) (entry : Entry) : Prop :=
  Within query entry.label ∨ Within query entry.title

theorem scoreEntry_isSome_iff {query : String} {entry : Entry} {cells : Matrix} :
    (scoreEntry query entry cells).1.isSome ↔ Finds query entry := by
  have hb (a b : Option Int) : (better a b).isSome ↔ a.isSome ∨ b.isSome := by
    cases a <;> cases b <;> simp [better]
  rw [scoreEntry, hb, scoreText_isSome_iff, scoreText_isSome_iff, Finds]

/-- The scores of some entries, each given by the matcher that those before it have used. -/
def scores (query : String) : List Entry → Matrix → List (Option Int)
  | [], _ => []
  | entry :: rest, cells =>
    (scoreEntry query entry cells).1 :: scores query rest (scoreEntry query entry cells).2

theorem hitsFrom_eq_scores (query : String) (index : Nat) (entries : List Entry)
    (cells : Matrix) : hitsFrom query index entries cells =
      ((scores query entries cells).zipIdx index).filterMap fun x => x.1.map (Hit.mk x.2) := by
  induction entries generalizing index cells with
  | nil => rfl
  | cons entry rest ih =>
    simp only [hitsFrom, scores, List.zipIdx_cons, List.filterMap_cons, ih]
    cases (scoreEntry query entry cells).1 <;> rfl

theorem getElem?_scores (query : String) (entries : List Entry) (cells : Matrix) (i : Nat) :
    (∃ s, (scores query entries cells)[i]? = some (some s)) ↔
      ∃ entry, entries[i]? = some entry ∧ Finds query entry := by
  induction entries generalizing i cells with
  | nil => simp [scores]
  | cons entry rest ih =>
    cases i with
    | zero =>
      simp only [scores, List.getElem?_cons_zero, Option.some.injEq, ← Option.isSome_iff_exists,
        scoreEntry_isSome_iff, exists_eq_left']
    | succ i => exact ih _ i

theorem mem_hitsFrom_iff {query : String} {entries : List Entry} {cells : Matrix} {hit : Hit} :
    hit ∈ hitsFrom query 0 entries cells ↔
      (scores query entries cells)[hit.index]? = some (some hit.score) := by
  rw [hitsFrom_eq_scores, List.mem_filterMap]
  constructor
  · intro h
    obtain ⟨⟨found, i⟩, hm, hx⟩ := h
    obtain ⟨s, rfl, rfl⟩ := Option.map_eq_some_iff.mp hx
    exact List.mem_zipIdx_iff_getElem?.mp hm
  · intro h
    exact ⟨⟨some hit.score, hit.index⟩, List.mem_zipIdx_iff_getElem?.mpr h, rfl⟩

theorem pairwise_hitsFrom (query : String) (index : Nat) (entries : List Entry) (cells : Matrix) :
    (∀ hit ∈ hitsFrom query index entries cells, index ≤ hit.index) ∧
      (hitsFrom query index entries cells).Pairwise fun a b => a.index < b.index := by
  induction entries generalizing index cells with
  | nil => simp [hitsFrom]
  | cons entry rest ih =>
    obtain ⟨hlow, hrise⟩ := ih (index + 1) (scoreEntry query entry cells).2
    simp only [hitsFrom]
    split
    · refine ⟨?_, .cons (fun hit hm => hlow hit hm) hrise⟩
      intro hit hm
      rcases List.mem_cons.mp hm with rfl | hm
      · exact Nat.le_refl index
      · exact Nat.le_of_succ_le (hlow hit hm)
    · exact ⟨fun hit hm => Nat.le_of_succ_le (hlow hit hm), hrise⟩

/-- What a query finds, best first. -/
def found (query : String) (entries : List Entry) : List Hit :=
  (hitsFrom query 0 entries Matrix.empty).mergeSort Hit.before

theorem mem_found_iff {query : String} {entries : List Entry} {hit : Hit} :
    hit ∈ found query entries ↔
      (scores query entries Matrix.empty)[hit.index]? = some (some hit.score) := by
  rw [found, List.mem_mergeSort, mem_hitsFrom_iff]

theorem nodup_found (query : String) (entries : List Entry) :
    ((found query entries).map Hit.index).Nodup := by
  have hp := (List.mergeSort_perm (hitsFrom query 0 entries Matrix.empty) Hit.before).map Hit.index
  rw [found, hp.nodup_iff, List.nodup_iff_pairwise_ne, List.pairwise_map]
  exact (pairwise_hitsFrom query 0 entries Matrix.empty).2.imp Nat.ne_of_lt

theorem sorted_found (query : String) (entries : List Entry) :
    (found query entries).Pairwise fun a b =>
      b.score < a.score ∨ a.score = b.score ∧ a.index < b.index := by
  have hs : (found query entries).Pairwise fun a b => a.before b = true :=
    List.pairwise_mergeSort Hit.before_trans Hit.before_total _
  have hn := List.pairwise_map.mp (List.nodup_iff_pairwise_ne.mp (nodup_found query entries))
  refine (hs.and hn).imp ?_
  intro a b h
  obtain ⟨hb, hne⟩ := h
  rw [Hit.before_iff] at hb
  omega

theorem filter_eq_found {query : String} (entries : List Entry) (hq : trimBlank query ≠ "") :
    filter entries query = (found (trimBlank query) entries).map Hit.index :=
  if_neg hq

theorem mem_filter_iff {query : String} {entries : List Entry} {i : Nat}
    (hq : trimBlank query ≠ "") : i ∈ filter entries query ↔
      ∃ entry, entries[i]? = some entry ∧ Finds (trimBlank query) entry := by
  rw [filter_eq_found entries hq, List.mem_map, ← getElem?_scores _ _ Matrix.empty]
  constructor
  · intro h
    obtain ⟨hit, hm, rfl⟩ := h
    exact ⟨hit.score, mem_found_iff.mp hm⟩
  · intro h
    obtain ⟨s, hs⟩ := h
    exact ⟨⟨i, s⟩, mem_found_iff.mpr hs, rfl⟩

/-- A query into which more is typed finds no more. -/
theorem filter_subset {query longer : String} (entries : List Entry) (hq : trimBlank query ≠ "")
    (h : query.toList.Sublist longer.toList) : filter entries longer ⊆ filter entries query := by
  have ht : (trimBlank query).toList.Sublist (trimBlank longer).toList := by
    simpa only [trimBlank, String.toList_ofList] using Blank.trimChars_sublist h
  have hl : trimBlank longer ≠ "" := by
    intro he
    rw [he] at ht
    exact hq (String.toList_inj.mp (List.sublist_nil.mp ht))
  have hw {text : String} (hw : Within (trimBlank longer) text) : Within (trimBlank query) text :=
    (ht.map Char.toLower).trans hw
  intro i hi
  obtain ⟨entry, he, hf⟩ := (mem_filter_iff hl).mp hi
  exact (mem_filter_iff hq).mpr ⟨entry, he, hf.imp hw hw⟩

/-- A query lists the places of those entries whose label or title has its characters in their order,
each once, by the score that the matcher gave them and then by place. -/
theorem filter_lists_found {query : String} (hq : trimBlank query ≠ "") (entries : List Entry) :
    (filter entries query).Nodup ∧
    (∀ i, i ∈ filter entries query ↔
      ∃ entry, entries[i]? = some entry ∧ Finds (trimBlank query) entry) ∧
    (∀ (entry : Entry) (cells : Matrix),
      (scoreEntry (trimBlank query) entry cells).1.isSome ↔ Finds (trimBlank query) entry) ∧
    (∃ hits : List Hit, filter entries query = hits.map Hit.index ∧
      (∀ hit, hit ∈ hits ↔
        (scores (trimBlank query) entries Matrix.empty)[hit.index]? = some (some hit.score)) ∧
      hits.Pairwise fun a b => b.score < a.score ∨ a.score = b.score ∧ a.index < b.index) ∧
    ∀ longer : String, query.toList.Sublist longer.toList →
      filter entries longer ⊆ filter entries query := by
  refine ⟨?_, fun _ => mem_filter_iff hq, fun _ _ => scoreEntry_isSome_iff, ?_,
    fun _ => filter_subset entries hq⟩
  · rw [filter_eq_found entries hq]
    exact nodup_found _ entries
  · exact ⟨found (trimBlank query) entries, filter_eq_found entries hq, fun _ => mem_found_iff,
      sorted_found _ entries⟩

theorem filter_lists_found_of_typing :
    let talker : Entry := ⟨"r2ta-node://node=talker", "node=talker", "talker",
      ⟨"node=talker", .node, none⟩⟩
    let listener : Entry := ⟨"r2ta-node://node=listener", "node=listener", "listener",
      ⟨"node=listener", .node, none⟩⟩
    trimBlank " LSTR" ≠ "" ∧ " LSTR".toList.Sublist " LiSTneR ".toList ∧
      1 ∈ filter [talker, listener] " LSTR" ∧
      filter [talker, listener] " LiSTneR " ⊆ filter [talker, listener] " LSTR" := by
  intro talker listener
  have hq : trimBlank " LSTR" ≠ "" := by decide
  have hs : " LSTR".toList.Sublist " LiSTneR ".toList := by decide
  obtain ⟨-, hmem, -, -, hmore⟩ := filter_lists_found hq [talker, listener]
  refine ⟨hq, hs, (hmem 1).mpr ⟨listener, rfl, .inl ?_⟩, hmore _ hs⟩
  unfold Within
  decide

end TraceViewer.Search
