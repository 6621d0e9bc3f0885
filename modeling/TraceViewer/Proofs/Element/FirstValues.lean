import TraceViewer.Proofs.Element.Label
import TraceViewer.Proofs.Lookup
import TraceViewer.Proofs.Text.Pieces
import TraceViewer.Proofs.Text.PlainForms

namespace TraceViewer

/-- A list with further members put in anywhere that have a property. -/
inductive Padded {α : Type} (P : α → Prop) : List α → List α → Prop
  | nil : Padded P [] []
  | keep (x : α) {xs ys : List α} : Padded P xs ys → Padded P (x :: xs) (x :: ys)
  | put {x : α} {xs ys : List α} : P x → Padded P xs ys → Padded P xs (x :: ys)

namespace FormPairs

variable {pairs pairs' : FormPairs} {key value : String}

theorem ofText_append (a b : String) : ofText (a ++ "&" ++ b) = ofText a ++ ofText b := by
  have hs : (a ++ "&" ++ b).toList = a.toList ++ '&' :: b.toList := by simp
  simp only [ofText_eq_pairs, PlainForm.pairs, hs]
  rw [List.splitOn_append_cons_self, List.filter_append, List.map_append]

/-- Texts joined by ampersands have the pairs of each of them in order. -/
theorem ofText_intercalate (ps : List String) :
    ofText ("&".intercalate ps) = ps.flatMap ofText := by
  induction ps with
  | nil => rfl
  | cons piece ps ih =>
    rcases Decidable.em (ps = []) with rfl | hn
    · simp
    · rw [String.intercalate_cons_of_ne_nil hn, ofText_append, ih, List.flatMap_cons]

theorem flatMap_pieces (s : String) : (pieces s).flatMap ofText = ofText s := by
  rw [← ofText_intercalate, intercalate_pieces]

/-- The keys that a label is made of. -/
def labelKeys : List String :=
  ["source_node", "target_node", "identifier", "node", "interface", "topic"]

/-- There is something to make a label of: both ends of a connection or a part of a node. -/
def Named (pairs : FormPairs) : Prop :=
  pairs.Connects ∨ ∃ key ∈ ["node", "interface", "topic"], ∃ value, pairs.Tells key value

theorem nodeParts_ne_nil (hk : key ∈ ["node", "interface", "topic"]) (hv : pairs.Tells key value) :
    pairs.nodeParts ≠ [] := by
  apply List.ne_nil_of_mem (a := value)
  exact List.mem_filterMap.mpr ⟨key, hk, value?_eq_some_iff.mpr hv⟩

/-- Pairs that name an element are labelled by the first values of the label keys alone. -/
theorem Named.label_eq (h : pairs.Named)
    (hk : ∀ key ∈ labelKeys, pairs'.lookup key = pairs.lookup key) : pairs'.label = pairs.label := by
  have hv (key : String) (hkey : key ∈ labelKeys) : pairs'.value? key = pairs.value? key := by
    rw [value?, value?, hk key hkey]
  have hedge : pairs'.edgeLabel? = pairs.edgeLabel? := by
    simp only [edgeLabel?, hv "source_node" (by decide), hv "target_node" (by decide),
      hv "identifier" (by decide)]
  have hnode : pairs'.nodeParts = pairs.nodeParts :=
    List.filterMap_congr fun key hkey => hv key (List.mem_of_mem_drop (i := 3) hkey)
  cases hl : pairs.edgeLabel? with
  | some text => simp only [label, hedge, hl]
  | none =>
    -- no connection is named, so a part of a node is, and the title is not called for
    obtain hc | ⟨key, hkey, value, ht⟩ := h
    · exact absurd hc (edgeLabel?_eq_none_iff.mp hl)
    · simp only [label, hedge, hl, hnode, if_neg (nodeParts_ne_nil hkey ht)]

/-- Pieces with other keys make no difference to what is looked up, wherever they are. -/
theorem lookup_padded {ps qs : List String} (hkey : key ∈ labelKeys)
    (h : Padded (fun piece => ∀ p ∈ ofText piece, p.1 ∉ labelKeys) ps qs) :
    (qs.flatMap ofText).lookup key = (ps.flatMap ofText).lookup key := by
  induction h with
  | nil => rfl
  | keep piece _ ih =>
    rw [List.flatMap_cons, List.flatMap_cons, List.lookup_append, List.lookup_append, ih]
  | @put piece _ _ hp _ ih =>
    have hn : key ∉ (ofText piece).map Prod.fst := by
      intro hm
      obtain ⟨p, hpm, rfl⟩ := List.mem_map.mp hm
      exact hp p hpm hkey
    rw [List.flatMap_cons, List.lookup_append, lookup_eq_none_iff_not_mem.mpr hn, Option.none_or, ih]

/-- The label of an identifier that names an element follows from the first value of each label key.
So it stays when pieces whose keys all differ change places, when pieces with other keys are put in
anywhere, and when pieces follow whose keys occur already, be it with an empty value. -/
theorem shortLabel_of_first_values (id : String) (h : (ofText id).Named) :
    (∀ id', (∀ key ∈ labelKeys, (ofText id').lookup key = (ofText id).lookup key) →
      shortLabel id' = shortLabel id) ∧
    (∀ ps : List String, ps.Perm (pieces id) → ((ofText id).map Prod.fst).Nodup →
      shortLabel ("&".intercalate ps) = shortLabel id) ∧
    (∀ ps, Padded (fun piece => ∀ p ∈ ofText piece, p.1 ∉ labelKeys) (pieces id) ps →
      shortLabel ("&".intercalate ps) = shortLabel id) ∧
    ∀ more : List String,
      (∀ piece ∈ more, ∀ p ∈ ofText piece, p.1 ∈ (ofText id).map Prod.fst) →
      shortLabel ("&".intercalate (pieces id ++ more)) = shortLabel id := by
  have hlabel (ps : List String)
      (hk : ∀ key ∈ labelKeys, (ps.flatMap ofText).lookup key = (ofText id).lookup key) :
      shortLabel ("&".intercalate ps) = shortLabel id := by
    rw [shortLabel, ofText_intercalate]
    exact h.label_eq hk
  refine ⟨fun id' hk => h.label_eq hk, ?_, ?_, ?_⟩
  · intro ps hp hn
    refine hlabel ps fun key _ => ?_
    have hpairs : (ps.flatMap ofText).Perm (ofText id) := by
      rw [← flatMap_pieces id]
      exact hp.flatMap_right ofText
    exact lookup_perm hpairs hn key
  · intro ps hp
    refine hlabel ps fun key hkey => ?_
    rw [lookup_padded hkey hp, flatMap_pieces]
  · intro more hm
    refine hlabel _ fun key _ => ?_
    rw [List.flatMap_append, flatMap_pieces]
    refine lookup_append_hidden (fun p hp => ?_) key
    obtain ⟨piece, hpiece, hp⟩ := List.mem_flatMap.mp hp
    exact hm piece hpiece p hp

theorem shortLabel_of_first_values_of_edge :
    let id := "source_node=/a&identifier=&target%5Fnode=/b"
    (ofText id).Named ∧
      ((ofText id).map Prod.fst).Nodup ∧
      shortLabel "target%5Fnode=/b&source_node=/a&identifier=" = "/a -> /b" ∧
      shortLabel "source_node=/a&name=/c&identifier=&target%5Fnode=/b&" = "/a -> /b" ∧
      shortLabel "source_node=/a&identifier=&target%5Fnode=/b&identifier=/t&source%5Fnode=/d" =
        "/a -> /b" := by
  intro id
  have hs : (ofText id).Tells "source_node" "/a" := value?_eq_some_iff.mp (by decide +kernel)
  have ht : (ofText id).Tells "target_node" "/b" := value?_eq_some_iff.mp (by decide +kernel)
  have hn : (ofText id).Named := .inl ⟨⟨_, hs⟩, _, ht⟩
  have hd : ((ofText id).map Prod.fst).Nodup := by decide +kernel
  have hp : pieces id = ["source_node=/a", "identifier=", "target%5Fnode=/b"] := by decide +kernel
  have hl : shortLabel id = "/a -> /b" := by decide +kernel
  obtain ⟨-, hperm, hput, hmore⟩ := shortLabel_of_first_values id hn
  rw [hp, hl] at hperm hput hmore
  refine ⟨hn, hd, ?_, ?_, ?_⟩
  · have hturned := hperm ["target%5Fnode=/b", "source_node=/a", "identifier="] (by decide) hd
    simpa using hturned
  · have hpadded : Padded (fun piece => ∀ p ∈ ofText piece, p.1 ∉ labelKeys)
        ["source_node=/a", "identifier=", "target%5Fnode=/b"]
        ["source_node=/a", "name=/c", "identifier=", "target%5Fnode=/b", ""] :=
      .keep _ (.put (by decide +kernel) (.keep _ (.keep _ (.put (by decide +kernel) .nil))))
    simpa using hput _ hpadded
  · simpa using hmore ["identifier=/t", "source%5Fnode=/d"] (by decide +kernel)

end FormPairs

end TraceViewer
