import Mathlib.Data.List.Basic
import TraceViewer.Proofs.Element.Identifier
import TraceViewer.Proofs.Text.Pieces

namespace TraceViewer

theorem occursIn_iff {part whole : List Char} : occursIn part whole = true ↔ part <:+: whole := by
  induction whole with
  | nil => simp [occursIn]
  | cons c rest ih =>
    rw [occursIn, Bool.or_eq_true, List.isPrefixOf_iff_prefix, ih, List.infix_cons_iff]

namespace NodeRole

/-- The marker of a role stands in a text. -/
def Marks (role : NodeRole) (text : String) : Prop :=
  role.marker.toList <:+: text.toList

instance (role : NodeRole) (text : String) : Decidable (role.Marks text) :=
  inferInstanceAs (Decidable (_ <:+: _))

/-- The place of a role in detection order; that of no role comes after all others. -/
def rank : Option NodeRole → Nat
  | some role => detectionOrder.idxOf role
  | none => detectionOrder.length

/-- The one of two that comes first in detection order. -/
def earlier (r r' : Option NodeRole) : Option NodeRole :=
  if rank r' < rank r then r' else r

/-- Of the roles marked the first in detection order, or none if no role is marked. -/
structure IsFirst (marked : NodeRole → Prop) (r : Option NodeRole) : Prop where
  holds : ∀ role ∈ r, marked role
  first : ∀ role, marked role → rank r ≤ rank (some role)

theorem mem_detectionOrder (role : NodeRole) : role ∈ detectionOrder := by
  cases role <;> decide

theorem rank_some_lt (role : NodeRole) : rank (some role) < rank none :=
  List.idxOf_lt_length_of_mem (mem_detectionOrder role)

theorem rank_inj {r r' : Option NodeRole} (h : rank r = rank r') : r = r' := by
  cases r with
  | none =>
    cases r' with
    | none => rfl
    | some role' => exact absurd h (Nat.ne_of_gt (rank_some_lt role'))
  | some role =>
    cases r' with
    | none => exact absurd h (Nat.ne_of_lt (rank_some_lt role))
    | some role' => rw [(List.idxOf_inj (mem_detectionOrder role)).mp h]

variable {marked marked' : NodeRole → Prop} {r r' : Option NodeRole}

theorem IsFirst.rank_le (h : IsFirst marked r) (hr : ∀ role ∈ r', marked role) :
    rank r ≤ rank r' := by
  cases r' with
  | none =>
    cases r with
    | none => exact Nat.le_refl _
    | some role => exact Nat.le_of_lt (rank_some_lt role)
  | some role => exact h.first role (hr role rfl)

theorem IsFirst.unique (h : IsFirst marked r) (h' : IsFirst marked r') : r = r' :=
  rank_inj (Nat.le_antisymm (h.rank_le h'.holds) (h'.rank_le h.holds))

theorem IsFirst.congr (h : IsFirst marked r) (hm : ∀ role, marked' role ↔ marked role) :
    IsFirst marked' r :=
  ⟨fun role hr => (hm role).mpr (h.holds role hr), fun role hr => h.first role ((hm role).mp hr)⟩

theorem IsFirst.earlier (h : IsFirst marked r) (h' : IsFirst marked' r') :
    IsFirst (fun role => marked role ∨ marked' role) (earlier r r') := by
  unfold NodeRole.earlier
  split
  · next hlt =>
    refine ⟨fun role hr => .inr (h'.holds role hr), ?_⟩
    rintro role (hr | hr)
    · exact Nat.le_trans (Nat.le_of_lt hlt) (h.first role hr)
    · exact h'.first role hr
  · next hle =>
    refine ⟨fun role hr => .inl (h.holds role hr), ?_⟩
    rintro role (hr | hr)
    · exact h.first role hr
    · exact Nat.le_trans (Nat.not_lt.mp hle) (h'.first role hr)

/-- The search answers with the first role whose marker stands anywhere in the text. -/
theorem isFirst_detect (text : String) : IsFirst (·.Marks text) (detect text) := by
  cases hd : detect text with
  | none =>
    refine ⟨nofun, fun role hr => ?_⟩
    have hn := List.find?_eq_none.mp hd role (mem_detectionOrder role)
    exact absurd (occursIn_iff.mpr hr) hn
  | some role =>
    obtain ⟨hr, before, after, ho, hb⟩ := List.find?_eq_some_iff_append.mp hd
    have hbefore (other : NodeRole) (hm : other.Marks text) : other ∉ before := by
      intro ho
      have hn := hb other ho
      rw [occursIn_iff.mpr hm] at hn
      cases hn
    rw [occursIn_iff] at hr
    refine ⟨fun _ hrole => Option.some.inj hrole ▸ hr, fun other hm => ?_⟩
    simp only [rank, ho]
    rw [List.idxOf_append_of_notMem (hbefore role hr), List.idxOf_append_of_notMem (hbefore other hm),
      List.idxOf_cons_self]
    omega

/-- A marker has no ampersand, so it stands within one piece of a text. -/
theorem marks_intercalate_iff {role : NodeRole} {ps : List String} :
    role.Marks ("&".intercalate ps) ↔ ∃ piece ∈ ps, role.Marks piece := by
  have hsep : '&' ∉ role.marker.toList := by cases role <;> decide
  have hne : role.marker.toList ≠ [] := by cases role <;> decide
  simp only [Marks, String.toList_intercalate]
  rw [show "&".toList = ['&'] from rfl, infix_intercalate_iff hsep hne]
  simp

theorem isFirst_detect_intercalate (ps : List String) :
    IsFirst (fun role => ∃ piece ∈ ps, role.Marks piece) (detect ("&".intercalate ps)) :=
  (isFirst_detect _).congr fun _ => marks_intercalate_iff.symm

theorem isFirst_detect_pieces (body : String) :
    IsFirst (fun role => ∃ piece ∈ pieces body, role.Marks piece) (detect body) := by
  have h := isFirst_detect_intercalate (pieces body)
  rwa [intercalate_pieces] at h

theorem isAllBlank_of_marks {role : NodeRole} {text : String} (h : role.Marks text) :
    isAllBlank text = false := by
  have hi : 'i' ∈ role.marker.toList := by cases role <;> decide
  exact List.all_eq_false.mpr ⟨'i', h.subset hi, by decide⟩

/-- Two texts joined by an ampersand have the role of the one whose role comes first. So the role of
a body is the first one marked in any of its pieces, whatever their order and however often each of
them occurs, and a body in which one role is marked is an element of that role. -/
theorem detect_of_pieces :
    (∀ a b : String, detect (a ++ "&" ++ b) = earlier (detect a) (detect b)) ∧
    (∀ (body : String) (r : Option NodeRole),
      detect body = r ↔ IsFirst (fun role => ∃ piece ∈ pieces body, role.Marks piece) r) ∧
    (∀ (body : String) (ps : List String), (∀ piece, piece ∈ ps ↔ piece ∈ pieces body) →
      detect ("&".intercalate ps) = detect body) ∧
    ∀ (kind : ElementKind) (body : String) (role : NodeRole),
      (∀ other : NodeRole, (∃ piece ∈ pieces body, other.Marks piece) ↔ other = role) →
      Element.ofIdentifier? (kind.scheme ++ body) = some ⟨body, kind, some role⟩ := by
  refine ⟨?_, ?_, ?_, ?_⟩
  · intro a b
    have hab := isFirst_detect_intercalate [a, b]
    rw [String.intercalate_cons_cons, String.intercalate_singleton] at hab
    refine hab.unique (((isFirst_detect a).earlier (isFirst_detect b)).congr fun role => ?_)
    simp
  · exact fun body r =>
      ⟨fun h => h ▸ isFirst_detect_pieces body, (isFirst_detect_pieces body).unique⟩
  · intro body ps hps
    refine (isFirst_detect_intercalate ps).unique ((isFirst_detect_pieces body).congr fun role => ?_)
    simp only [hps]
  · intro kind body role hrole
    have hfirst : IsFirst (fun other => ∃ piece ∈ pieces body, other.Marks piece) (some role) := by
      refine ⟨fun other ho => (hrole other).mpr (Option.some.inj ho).symm, fun other ho => ?_⟩
      exact Nat.le_of_eq (by rw [(hrole other).mp ho])
    have hmarks : role.Marks body := by
      rw [← intercalate_pieces body, marks_intercalate_iff]
      exact (hrole role).mpr rfl
    rw [Element.ofIdentifier?_scheme_append, Element.ofBody?_eq_some_iff,
      (isFirst_detect_pieces body).unique hfirst]
    exact ⟨isAllBlank_of_marks hmarks, rfl⟩

theorem detect_of_pieces_turned :
    let body := "interface_type=Callback&inner=interface_type=Subscriber"
    let turned := ["inner=interface_type=Subscriber", "interface_type=Callback",
      "inner=interface_type=Subscriber"]
    let timed := "node=/a&interface_type=Timer(2)"
    (∀ piece, piece ∈ turned ↔ piece ∈ pieces body) ∧
      detect ("&".intercalate turned) = some subscriber ∧
      (∀ other : NodeRole, (∃ piece ∈ pieces timed, other.Marks piece) ↔ other = timer) ∧
      Element.ofIdentifier? (ElementKind.edge.scheme ++ timed) =
        some ⟨timed, .edge, some timer⟩ := by
  intro body turned timed
  obtain ⟨-, -, hturned, hone⟩ := detect_of_pieces
  have hp : pieces body = ["interface_type=Callback", "inner=interface_type=Subscriber"] := by
    decide +kernel
  have ht : ∀ piece, piece ∈ turned ↔ piece ∈ pieces body := by
    intro piece
    simp only [turned, hp, List.mem_cons, List.not_mem_nil, or_false]
    tauto
  have hm : ∀ other : NodeRole, (∃ piece ∈ pieces timed, other.Marks piece) ↔ other = timer := by
    intro other
    rw [show pieces timed = ["node=/a", "interface_type=Timer(2)"] by decide +kernel]
    cases other <;> decide +kernel
  refine ⟨ht, ?_, hm, hone .edge timed timer hm⟩
  rw [hturned body turned ht]
  decide +kernel

end NodeRole

end TraceViewer
