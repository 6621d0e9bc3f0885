import TraceViewer.Element.Label
import TraceViewer.Proofs.Text.Forms

namespace TraceViewer

namespace FormPairs

/-- The first pair with this key has this value, and it is not empty. -/
def Tells (pairs : FormPairs) (key value : String) : Prop :=
  value ≠ "" ∧ ∃ before after, pairs = before ++ (key, value) :: after ∧ ∀ p ∈ before, p.1 ≠ key

variable {pairs : FormPairs} {key value : String}

theorem value?_eq_some_iff : pairs.value? key = some value ↔ pairs.Tells key value := by
  rw [value?, Option.filter_eq_some_iff, List.lookup_eq_some_iff, and_comm]
  simp only [bne_iff_ne, Tells, ne_comm]

theorem value?_eq_none_iff : pairs.value? key = none ↔ ∀ value, ¬ pairs.Tells key value := by
  simp only [Option.eq_none_iff_forall_ne_some, ne_eq, value?_eq_some_iff]

/-- The values told under some keys, in the order of the keys. -/
inductive Told (pairs : FormPairs) : List String → List String → Prop
  | nil : Told pairs [] []
  | told {key value : String} {keys values : List String} : pairs.Tells key value →
      Told pairs keys values → Told pairs (key :: keys) (value :: values)
  | untold {key : String} {keys values : List String} : (∀ value, ¬ pairs.Tells key value) →
      Told pairs keys values → Told pairs (key :: keys) values

theorem told_iff {keys values : List String} : pairs.Told keys values ↔ values = keys.filterMap pairs.value? := by
  constructor
  · intro h
    induction h with
    | nil => rfl
    | told hv _ ih => rw [List.filterMap_cons_some (value?_eq_some_iff.mpr hv), ih]
    | untold hv _ ih => rw [List.filterMap_cons_none (value?_eq_none_iff.mpr hv), ih]
  · rintro rfl
    induction keys with
    | nil => exact .nil
    | cons key keys ih =>
      cases hv : pairs.value? key with
      | none =>
        rw [List.filterMap_cons_none hv]
        exact .untold (value?_eq_none_iff.mp hv) ih
      | some value =>
        rw [List.filterMap_cons_some hv]
        exact .told (value?_eq_some_iff.mp hv) ih

/-- Both ends of a connection are told. -/
def Connects (pairs : FormPairs) : Prop :=
  (∃ source, pairs.Tells "source_node" source) ∧ ∃ target, pairs.Tells "target_node" target

/-- The label of an element by what its pairs tell. -/
inductive Labelled (pairs : FormPairs) : String → Prop
  | carrying {source target topic : String} : pairs.Tells "source_node" source →
      pairs.Tells "target_node" target → pairs.Tells "identifier" topic →
      Labelled pairs (source ++ " -> " ++ target ++ " (" ++ topic ++ ")")
  | edge {source target : String} : pairs.Tells "source_node" source →
      pairs.Tells "target_node" target → (∀ topic, ¬ pairs.Tells "identifier" topic) →
      Labelled pairs (source ++ " -> " ++ target)
  | node {parts : List String} : ¬ pairs.Connects →
      pairs.Told ["node", "interface", "topic"] parts → parts ≠ [] →
      Labelled pairs (" ".intercalate parts)
  | title : ¬ pairs.Connects → pairs.Told ["node", "interface", "topic"] [] →
      Labelled pairs pairs.title

theorem edgeLabel?_eq_none_iff : pairs.edgeLabel? = none ↔ ¬ pairs.Connects := by
  simp only [Connects, ← value?_eq_some_iff, ← Option.isSome_iff_exists]
  unfold edgeLabel?
  cases pairs.value? "source_node" <;> cases pairs.value? "target_node" <;>
    cases pairs.value? "identifier" <;> simp

theorem Labelled.label_eq {label : String} (h : pairs.Labelled label) : pairs.label = label := by
  cases h with
  | carrying hs ht hi =>
    rw [← value?_eq_some_iff] at hs ht hi
    simp only [FormPairs.label, edgeLabel?, hs, ht, hi]
  | edge hs ht hi =>
    rw [← value?_eq_some_iff] at hs ht
    rw [← value?_eq_none_iff] at hi
    simp only [FormPairs.label, edgeLabel?, hs, ht, hi]
  | node hc hp hn =>
    rw [told_iff] at hp
    rw [FormPairs.label, edgeLabel?_eq_none_iff.mpr hc]
    simp only [nodeParts, ← hp, if_neg hn]
  | title hc hp =>
    rw [told_iff] at hp
    rw [FormPairs.label, edgeLabel?_eq_none_iff.mpr hc]
    simp only [nodeParts, ← hp, if_true]

theorem labelled_label (pairs : FormPairs) : pairs.Labelled pairs.label := by
  unfold label
  split
  · next label he =>
    unfold edgeLabel? at he
    split at he
    · next source target hs ht =>
      rw [value?_eq_some_iff] at hs ht
      dsimp only at he
      split at he <;> cases he
      · next topic hi => exact .carrying hs ht (value?_eq_some_iff.mp hi)
      · next hi => exact .edge hs ht (value?_eq_none_iff.mp hi)
    · cases he
  · next he =>
    have hc := edgeLabel?_eq_none_iff.mp he
    split
    · next hp => exact .title hc (told_iff.mpr hp.symm)
    · next hp => exact .node hc (told_iff.mpr rfl) hp

theorem labelled_iff {label : String} : pairs.Labelled label ↔ pairs.label = label :=
  ⟨Labelled.label_eq, fun h => h ▸ labelled_label pairs⟩

end FormPairs

/-- However pairs are written in a form, its element has their title and the label of what they
tell. -/
theorem Form.written_pairs_are_shown (form : Form) :
    displayTitle form.text =
      " ".intercalate (form.pairs.map fun p => if p.2 = "" then p.1 else p.1 ++ "=" ++ p.2) ∧
    ∀ label, form.pairs.Labelled label ↔ shortLabel form.text = label := by
  rw [displayTitle, shortLabel, FormPairs.ofText_text]
  exact ⟨rfl, fun label => FormPairs.labelled_iff⟩

end TraceViewer
