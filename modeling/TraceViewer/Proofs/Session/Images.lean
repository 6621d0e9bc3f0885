import Mathlib.Data.List.Induction
import TraceViewer.Proofs.Interaction.Renders
import TraceViewer.Proofs.Session.Calls
import TraceViewer.Tracer.Script

namespace TraceViewer

/-- A step that follows some others is about the chart of a view: it opens the view or changes it. -/
def Step.IsFor (past : List Step) (view : Nat) : Step → Prop
  | .openView _ => view = (opened past).length
  | .change n _ => view = n
  | _ => False

namespace Session

variable {σ : Type} {t : Tracer σ} {w : World σ}

/-- The session after some steps. -/
def after (t : Tracer σ) (w : World σ) (steps : List Step) : Session σ :=
  (run t { world := w } steps).2

/-- A step that follows some others has the chart of a view drawn: the tracer, asked for it, prints
where it is. -/
def Draws (t : Tracer σ) (w : World σ) (view : Nat) (past : List Step) (step : Step) (p : Path) :
    Prop :=
  step.IsFor past view ∧ ∃ r text, step.due? past = some (.render r) ∧
    (t.render r (after t w past).world.files (after t w past).world.memory).result = .ok text ∧
    text ≠ "" ∧ p = .ofString text

/-- Where the last chart is that some steps have drawn for a view. -/
inductive LastDrawn (t : Tracer σ) (w : World σ) (view : Nat) : List Step → Path → Prop where
  | now {past : List Step} {step : Step} {p : Path} (h : Draws t w view past step p) :
      LastDrawn t w view (past ++ [step]) p
  | before {past : List Step} {step : Step} {p : Path} (h : LastDrawn t w view past p)
      (hn : ∀ q, ¬ Draws t w view past step q) : LastDrawn t w view (past ++ [step]) p

/-- What a step does to a view, in terms of what came of the step. -/
structure Keeps (step : Step) (result : StepResult) (n : Nat) (v v' : View) : Prop where
  image : (∀ p, result ≠ .render (.ok (.rendered p))) → v'.artifact = v.artifact
  elsewhere : (∀ c, step ≠ .change n c) → v' = v
  failed : ∀ c e, step = .change n c → result = .render (.error e) → v' = v.set c
  metric : v.metric ≠ none → v'.metric ≠ none

/-- What holds of a view after some steps: its image is the last one drawn for it, and what further
steps leave of it. -/
structure Vouched (t : Tracer σ) (w : World σ) (steps : List Step) (n : Nat) (v : View) :
    Prop where
  image : ∀ p, v.artifact = some p ↔ LastDrawn t w n steps p
  blank : v.artifact = none ↔ ∀ p, ¬ LastDrawn t w n steps p
  named : ∀ p, v.artifact = some p → p.bytes ≠ []
  awaiting : v.metric = none → v.artifact = none
  next : ∀ step, ∃ v', (after t w (steps ++ [step])).views[n]? = some v' ∧
    Keeps step ((after t w steps).step t step).1 n v v'
  later : ∀ more, ∃ v', (after t w (steps ++ more)).views[n]? = some v' ∧
    (v.metric ≠ none → v'.metric ≠ none)

theorem run_append (s : Session σ) (first second : List Step) :
    (s.run t (first ++ second)).2 = ((s.run t first).2.run t second).2 := by
  induction first generalizing s with
  | nil => rfl
  | cons step rest ih => exact ih (s.step t step).2

theorem after_append (past : List Step) (step : Step) :
    after t w (past ++ [step]) = ((after t w past).step t step).2 :=
  run_append _ past [step]

theorem agrees_after (t : Tracer σ) (w : World σ) (past : List Step) :
    (after t w past).Agrees past :=
  (agrees_start w).run past

theorem not_lastDrawn_nil {view : Nat} {p : Path} : ¬ LastDrawn t w view [] p := by
  generalize hs : ([] : List Step) = steps
  rintro (_ | _) <;> exact List.append_ne_nil_of_right_ne_nil _ (List.cons_ne_nil _ _) hs.symm

theorem lastDrawn_append {view : Nat} {past : List Step} {step : Step} {p : Path} :
    LastDrawn t w view (past ++ [step]) p ↔ Draws t w view past step p ∨
      LastDrawn t w view past p ∧ ∀ q, ¬ Draws t w view past step q := by
  constructor
  · generalize hs : past ++ [step] = steps
    rintro (h | ⟨h, hn⟩) <;> obtain ⟨rfl, hl⟩ := List.append_inj' hs rfl <;>
      obtain rfl := List.singleton_inj.mp hl
    · exact .inl h
    · exact .inr ⟨h, hn⟩
  · rintro (h | ⟨h, hn⟩)
    · exact .now h
    · exact .before h hn

theorem LastDrawn.named {view : Nat} {steps : List Step} {p : Path}
    (h : LastDrawn t w view steps p) : p.bytes ≠ [] := by
  induction h with
  | now h =>
    obtain ⟨-, r, text, -, -, ht, rfl⟩ := h
    exact Path.ofString_ne ht
  | before _ _ ih => exact ih

theorem Agrees.due_change {past : List Step} {s : Session σ} (h : s.Agrees past) {n : Nat}
    {v : View} (hv : s.views[n]? = some v) (c : Change) :
    (Step.change n c).due? past =
      if v.isSame c then none else (v.set c).request?.map .render := by
  rcases h.find n with ⟨hn, -⟩ | ⟨v', o, hv', ho, hvo⟩
  · rw [hn] at hv
    cases hv
  · obtain rfl := Option.some.inj (hv.symm.trans hv')
    obtain ⟨he, hs⟩ := View.set_agrees hvo c
    have hh := View.isSame_iff_holds v c
    rw [hvo.2] at hh
    simp only [Step.due?, ho, Option.bind_eq_bind, Option.bind_some, hh, View.request?_eq, he, hs]
    rfl

section Step

variable {s : Session σ} {step : Step} {n : Nat} {v : View}

/-- A step that is not a change of a view leaves it alone. -/
theorem step_elsewhere (hv : s.views[n]? = some v) (hs : ∀ c, step ≠ .change n c) :
    (s.step t step).2.views[n]? = some v := by
  cases step with
  | openView e => exact List.getElem?_append_left (List.getElem?_eq_some_iff.mp hv).1 ▸ hv
  | change m c =>
    have hm : m ≠ n := fun h => hs c (h ▸ rfl)
    simp only [Session.step, withView]
    split
    · exact (List.getElem?_set_ne hm).trans hv
    · exact hv
  | exportChart view format destination =>
    rw [← hv]
    exact congrArg (·[n]?) (step_exportChart_keeps t s view format destination).1
  | exportData view destination =>
    rw [← hv]
    exact congrArg (·[n]?) (step_exportData_keeps t s view destination).1
  | hover pointer target => exact hv

theorem step_change (hv : s.views[n]? = some v) (c : Change) :
    (s.step t (.change n c)).1 = .render (v.change c t s.world).outcome ∧
      (s.step t (.change n c)).2.views[n]? = some (v.change c t s.world).view := by
  have hl : n < s.views.length := (List.getElem?_eq_some_iff.mp hv).1
  simp only [Session.step, withView, hv, List.getElem?_set_self hl, and_self]

/-- A step does to a view no more than what its result tells. -/
theorem step_keeps (hv : s.views[n]? = some v) (step : Step) :
    ∃ v', (s.step t step).2.views[n]? = some v' ∧ Keeps step (s.step t step).1 n v v' := by
  by_cases hs : ∃ c, step = .change n c
  · -- the new setting is there before the drawing, so a failure cannot take it back
    obtain ⟨c, rfl⟩ := hs
    obtain ⟨hr, hv'⟩ := step_change (t := t) hv c
    refine ⟨_, hv', ?_⟩
    rw [hr]
    have hother : (∀ c', Step.change n c ≠ .change n c') → ∀ v' : View, v' = v :=
      fun h => absurd rfl (h c)
    by_cases hc : v.set c = v
    · rw [View.change_of_same hc]
      exact ⟨fun _ => rfl, fun _ => rfl, by simp, id⟩
    · rw [View.change_of_new hc]
      have hm : v.metric ≠ none → (v.set c).metric ≠ none := fun h => View.metric_set h c
      have ha := View.artifact_set v c
      have hd := View.render_comes t s.world (v.set c)
      generalize (v.set c).render t s.world = r at hd
      cases hd with
      | awaiting => exact ⟨fun _ => ha, (hother · _), by simp, hm⟩
      | drawn => exact ⟨fun h => absurd rfl (h _), (hother · _), by simp, hm⟩
      | failed => exact ⟨fun _ => ha, (hother · _), by simp +contextual, hm⟩
  · have hn : ∀ c, step ≠ .change n c := fun c h => hs ⟨c, h⟩
    refine ⟨v, step_elsewhere hv hn, ?_⟩
    exact ⟨fun _ => rfl, fun _ => rfl, fun c e h => absurd h (hn c), id⟩

end Step

/-- No later step unsets the metric of a view. -/
theorem run_keeps_metric {s : Session σ} {n : Nat} {v : View} (hv : s.views[n]? = some v)
    (more : List Step) :
    ∃ v', (s.run t more).2.views[n]? = some v' ∧ (v.metric ≠ none → v'.metric ≠ none) := by
  induction more generalizing s v with
  | nil => exact ⟨v, hv, id⟩
  | cons step rest ih =>
    obtain ⟨v', hv', hk⟩ := step_keeps (t := t) hv step
    obtain ⟨v'', hv'', hm⟩ := ih hv'
    exact ⟨v'', hv'', hm ∘ hk.metric⟩

/-- An image, or none, is the last one that some steps have drawn for a view. -/
def IsLast (t : Tracer σ) (w : World σ) (view : Nat) (steps : List Step) (image : Option Path) :
    Prop :=
  ∀ p, image = some p ↔ LastDrawn t w view steps p

variable {past : List Step} {step : Step} {n : Nat} {v : View}

theorem IsLast.quiet {image : Option Path} (h : IsLast t w n past image)
    (hn : ∀ q, ¬ Draws t w n past step q) : IsLast t w n (past ++ [step]) image := by
  intro p
  rw [h p, lastDrawn_append]
  simp [hn]

/-- Drawing the chart of a view makes its image the last one drawn. -/
theorem IsLast.render (h : IsLast t w n past v.artifact) (hs : step.IsFor past n)
    (hd : step.due? past = v.request?.map .render) {r : View.Rendering σ}
    (hr : View.Comes t (after t w past).world v r) :
    IsLast t w n (past ++ [step]) r.view.artifact := by
  cases hr with
  | awaiting hq =>
    apply h.quiet
    rintro q ⟨-, r, text, hdue, -⟩
    simp [hd, hq] at hdue
  | @drawn r text w' hq hx ht =>
    have hdraws (p : Path) : Draws t w n past step p ↔ p = .ofString text := by
      constructor
      · rintro ⟨-, r', text', hdue, hx', -, rfl⟩
        rw [hd, hq, Option.map_some, Option.some.injEq, TracerCall.render.injEq] at hdue
        subst hdue
        rw [hx, Except.ok.injEq] at hx'
        rw [hx']
      · rintro rfl
        exact ⟨hs, r, text, by rw [hd, hq]; rfl, hx, ht, rfl⟩
    intro p
    rw [lastDrawn_append]
    simp [hdraws, eq_comm]
  | @failed r e w' hq hx =>
    apply h.quiet
    rintro q ⟨-, r', text, hdue, hx', ht, -⟩
    rw [hd, hq, Option.map_some, Option.some.injEq, TracerCall.render.injEq] at hdue
    subst hdue
    exact ht (hx text hx')

/-- Every view shows the last image drawn for it, and none was drawn for a view not yet open. -/
structure Shows (t : Tracer σ) (w : World σ) (steps : List Step) : Prop where
  image : ∀ n v, (after t w steps).views[n]? = some v → IsLast t w n steps v.artifact
  awaiting : ∀ v ∈ (after t w steps).views, v.metric = none → v.artifact = none
  unopened : ∀ n, (after t w steps).views.length ≤ n → IsLast t w n steps none

theorem shows_start : Shows t w [] := by
  refine ⟨?_, ?_, ?_⟩
  · intro n v hv
    simp [after, run] at hv
  · intro v hv
    simp [after, run] at hv
  · intro n _ p
    simp [not_lastDrawn_nil]

/-- Where nothing is drawn and no view is touched, all images are as they were. -/
theorem Shows.keep (h : Shows t w past) (hs : ∀ n q, ¬ Draws t w n past step q)
    (hv : ((after t w past).step t step).2.views = (after t w past).views) :
    Shows t w (past ++ [step]) := by
  have hl : (after t w (past ++ [step])).views = (after t w past).views := by
    rw [after_append, hv]
  refine ⟨?_, ?_, ?_⟩ <;> rw [hl]
  · intro n v hn
    exact (h.image n v hn).quiet (hs n)
  · exact h.awaiting
  · intro n hn
    exact (h.unopened n hn).quiet (hs n)

theorem Shows.openView (h : Shows t w past) (e : Element) :
    Shows t w (past ++ [.openView e]) := by
  have hc := (agrees_after t w past).count
  have hd := View.render_comes t (after t w past).world (View.start e)
  have hl : (after t w (past ++ [.openView e])).views =
      (after t w past).views ++ [((View.start e).render t (after t w past).world).view] := by
    rw [after_append]
    rfl
  have hquiet (n : Nat) (hn : n ≠ (after t w past).views.length) (q : Path) :
      ¬ Draws t w n past (.openView e) q :=
    fun hq => hn (hc ▸ hq.1)
  refine ⟨?_, ?_, ?_⟩ <;> rw [hl]
  · intro n v hv
    rw [List.getElem?_append] at hv
    split at hv
    · rename_i hn
      exact (h.image n v hv).quiet (hquiet n (by omega))
    · rename_i hn
      rw [List.getElem?_singleton] at hv
      split at hv
      · rename_i hz
        obtain rfl := Option.some.inj hv
        have hn : n = (after t w past).views.length := by omega
        refine IsLast.render (v := View.start e) (h.unopened n (by omega)) ?_ rfl hd
        exact hn.trans hc
      · cases hv
  · intro v hv
    rcases List.mem_append.mp hv with hv | hv
    · exact h.awaiting v hv
    · obtain rfl := List.mem_singleton.mp hv
      exact hd.blank fun _ => rfl
  · intro n hn
    rw [List.length_append, List.length_singleton] at hn
    exact (h.unopened n (by omega)).quiet (hquiet n (by omega))

theorem Shows.change (h : Shows t w past) (m : Nat) (c : Change) :
    Shows t w (past ++ [.change m c]) := by
  have ha := agrees_after t w past
  rcases ha.find m with ⟨hv, ho⟩ | ⟨v, o, hv, ho, -⟩
  · apply h.keep
    · rintro n q ⟨-, r, text, hd, -⟩
      simp [Step.due?, ho] at hd
    · simp [Session.step, withView, hv]
  · have hdue := ha.due_change hv c
    have hl : m < (after t w past).views.length := (List.getElem?_eq_some_iff.mp hv).1
    by_cases hc : v.set c = v
    · apply h.keep
      · rintro n q ⟨-, r, text, hd, -⟩
        simp [hdue, (View.isSame_iff v c).mpr hc] at hd
      · simp only [Session.step, withView, hv, View.change_of_same hc]
        obtain ⟨hl, he⟩ := List.getElem?_eq_some_iff.mp hv
        rw [← he]
        exact List.set_getElem_self hl
    · have hd := View.render_comes t (after t w past).world (v.set c)
      have hs : (after t w (past ++ [.change m c])).views = (after t w past).views.set m
          ((v.set c).render t (after t w past).world).view := by
        rw [after_append]
        simp only [Session.step, withView, hv, View.change_of_new hc]
      have hquiet (n : Nat) (hn : m ≠ n) (q : Path) : ¬ Draws t w n past (.change m c) q :=
        fun hq => hn hq.1.symm
      refine ⟨?_, ?_, ?_⟩ <;> rw [hs]
      · intro n v' hv'
        by_cases hn : m = n
        · subst hn
          rw [List.getElem?_set_self hl] at hv'
          obtain rfl := Option.some.inj hv'
          refine IsLast.render (v := v.set c) ?_ ?_ ?_ hd
          · rw [View.artifact_set]
            exact h.image m v hv
          · rfl
          · rw [hdue, if_neg fun hsame => hc ((View.isSame_iff v c).mp hsame)]
        · rw [List.getElem?_set_ne hn] at hv'
          exact (h.image n v' hv').quiet (hquiet n hn)
      · intro v' hv'
        rcases List.mem_or_eq_of_mem_set hv' with hv' | rfl
        · exact h.awaiting v' hv'
        · exact hd.blank (View.blank_set (h.awaiting v (List.mem_of_getElem? hv)) c)
      · intro n hn
        rw [List.length_set] at hn
        exact (h.unopened n hn).quiet (hquiet n (by omega))

theorem shows_after (t : Tracer σ) (w : World σ) (steps : List Step) : Shows t w steps := by
  induction steps using List.reverseRecOn with
  | nil => exact shows_start
  | append_singleton past step ih =>
    cases step with
    | openView e => exact ih.openView e
    | change m c => exact ih.change m c
    | exportChart view format destination =>
      have hk := step_exportChart_keeps t (after t w past) view format destination
      exact ih.keep (fun _ _ hq => hq.1) hk.1
    | exportData view destination =>
      have hk := step_exportData_keeps t (after t w past) view destination
      exact ih.keep (fun _ _ hq => hq.1) hk.1
    | hover pointer target => exact ih.keep (fun _ _ hq => hq.1) rfl

/-- In every state that a session reaches, the image of each view is the last one drawn for it. -/
theorem images_last_drawn (t : Tracer σ) (w : World σ) (steps : List Step) (n : Nat) (v : View)
    (hv : (after t w steps).views[n]? = some v) : Vouched t w steps n v := by
  have h := shows_after t w steps
  have hi := h.image n v hv
  refine ⟨hi, ?_, ?_, h.awaiting v (List.mem_of_getElem? hv), ?_, ?_⟩
  · simp only [← hi _, Option.eq_none_iff_forall_ne_some, ne_eq]
  · intro p hp
    exact ((hi p).mp hp).named
  · intro step
    rw [after_append]
    exact step_keeps hv step
  · intro more
    rw [after, run_append]
    exact run_keeps_metric hv more

/-- A view whose second drawing failed and whose third printed nothing still shows the first. -/
theorem images_last_drawn_of_failures :
    let t := Script.tracer (.ofString "out")
    let w : World Script :=
      { files := .empty []
        memory :=
          { replies :=
              [some (.finish { printed := Utf8.encode "a.svg" }), some (.fail "busy"),
                some (.finish {})] } }
    let e : Element := ⟨"node=/a", .node, some .callback⟩
    let steps := [.openView e, .change 0 (.chartKind .scatter), .change 0 (.bins (some 10))]
    let v : View := ⟨e, some .callbackDuration, .scatter, some 10, some (.ofString "a.svg")⟩
    (after t w steps).views[0]? = some v ∧ Vouched t w steps 0 v := by
  dsimp only
  apply (and_iff_left_of_imp ?_).mpr
  · rfl
  · exact images_last_drawn _ _ _ 0 _

end Session

end TraceViewer
