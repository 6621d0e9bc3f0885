import TraceViewer.Proofs.Interaction.Calls

namespace TraceViewer

variable {σ : Type} {t : Tracer σ} {w : World σ}

namespace Hover

/-- The chart that a tooltip asks for: small, and of the default metric of the element named. -/
def IsTooltip (target : Option String) (r : ChartRequest) : Prop :=
  ∃ text e m, target = some text ∧ Element.ofIdentifier? text = some e ∧
    e.defaultMetric = some m ∧
    r = { elementId := e.identifier
          metric := m
          chartKind := .histogram
          binCount := none
          size := 400
          format := .svg }

theorem request?_eq_some_iff {target : Option String} {r : ChartRequest} :
    request? target = some r ↔ IsTooltip target r := by
  simp only [request?, bind, Option.bind_eq_some_iff]
  constructor
  · rintro ⟨text, ht, e, he, m, hm, hr⟩
    exact ⟨text, e, m, ht, he, hm, (Option.some.inj hr).symm⟩
  · rintro ⟨text, e, m, ht, he, hm, rfl⟩
    exact ⟨text, ht, e, he, m, hm, rfl⟩

theorem request?_eq_none_iff {target : Option String} :
    request? target = none ↔ ¬ ∃ r, IsTooltip target r := by
  simp only [← request?_eq_some_iff, Option.eq_none_iff_forall_ne_some, not_exists, ne_eq]

/-- One look at the pointer, in whatever world it takes place. -/
structure Look (σ : Type) where
  target : Option String
  world : World σ

namespace Look

/-- What is seen under the pointer, without the blank characters around it. -/
def seen (l : Look σ) : Option String :=
  l.target.map trimBlank

/-- What the tracer answers when asked for a chart at this look. -/
def answer (t : Tracer σ) (l : Look σ) (r : ChartRequest) : Except ViewerError String :=
  (t.render r l.world.files l.world.memory).result

/-- The tracer draws the tooltip of what is seen, and prints where it is. -/
def Draws (t : Tracer σ) (l : Look σ) (p : Path) : Prop :=
  ∃ r text, IsTooltip l.seen r ∧ l.answer t r = .ok text ∧ text ≠ "" ∧ p = Path.ofString text

/-- The tracer is asked for a tooltip of what is seen, and fails or prints nothing. -/
def Fails (t : Tracer σ) (l : Look σ) (e : ViewerError) : Prop :=
  ∃ r, IsTooltip l.seen r ∧
    (l.answer t r = .error e ∨ l.answer t r = .ok "" ∧ e = .emptyArtifact r.elementId)

end Look

/-- What the last of some looks has seen. -/
def lastSeen (past : List (Look σ)) : Option String :=
  (past.map Look.seen).getLastD none

/-- The hover state after some looks. -/
def afterLooks (t : Tracer σ) (past : List (Look σ)) : Hover :=
  past.foldl (fun h l => (h.look l.target t l.world).hover) {}

/-- The last looks have all seen the same, and of these `first` was the first. -/
def BlockStart (past : List (Look σ)) (first : Look σ) : Prop :=
  ∃ before rest, past = before ++ first :: rest ∧ first.seen ≠ lastSeen before ∧
    ∀ l ∈ rest, l.seen = first.seen

theorem lastSeen_append (past : List (Look σ)) (l : Look σ) :
    lastSeen (past ++ [l]) = l.seen := by
  simp [lastSeen]

theorem lastSeen_of_none {past : List (Look σ)} (h : ∀ l ∈ past, l.seen = none) :
    lastSeen past = none := by
  rcases List.mem_cons.mp (List.getLastD_mem_cons (l := past.map Look.seen) (a := none)) with hl | hl
  · exact hl
  · obtain ⟨l, hm, he⟩ := List.mem_map.mp hl
    exact he.symm.trans (h l hm)

theorem BlockStart.append {past : List (Look σ)} {first l : Look σ} (h : BlockStart past first)
    (hl : l.seen = first.seen) : BlockStart (past ++ [l]) first := by
  obtain ⟨before, rest, rfl, hb, hr⟩ := h
  refine ⟨before, rest ++ [l], by simp, hb, ?_⟩
  intro x hx
  rcases List.mem_append.mp hx with hx | hx
  · exact hr x hx
  · rw [List.mem_singleton.mp hx, hl]

theorem BlockStart.fresh {past : List (Look σ)} {l : Look σ} (h : l.seen ≠ lastSeen past) :
    BlockStart (past ++ [l]) l :=
  ⟨past, [], rfl, h, by simp⟩

theorem BlockStart.seen {past : List (Look σ)} {first : Look σ} (h : BlockStart past first) :
    lastSeen past = first.seen := by
  obtain ⟨before, rest, rfl, -, hr⟩ := h
  obtain rfl | ⟨rest, l, rfl⟩ := rest.eq_nil_or_concat
  · exact lastSeen_append before first
  · rw [List.concat_eq_append, ← List.cons_append, ← List.append_assoc, lastSeen_append]
    exact hr l (by simp)

/-- One more look goes on with the block there is, or begins one. -/
theorem blockStart_append_iff {past : List (Look σ)} {l first : Look σ} :
    BlockStart (past ++ [l]) first ↔
      if l.seen = lastSeen past then BlockStart past first else first = l := by
  constructor
  · rintro ⟨before, rest, he, hb, hr⟩
    obtain rfl | ⟨rest, x, rfl⟩ := rest.eq_nil_or_concat
    · obtain ⟨rfl, hl⟩ := List.append_inj' he rfl
      obtain rfl := List.singleton_inj.mp hl
      rw [if_neg hb]
    · rw [List.concat_eq_append, ← List.cons_append, ← List.append_assoc] at he
      obtain ⟨rfl, hl⟩ := List.append_inj' he rfl
      obtain rfl := List.singleton_inj.mp hl
      have hp : BlockStart (before ++ first :: rest) first :=
        ⟨before, rest, rfl, hb, fun y hy => hr y (by simp [hy])⟩
      rw [if_pos ((hr l (by simp)).trans hp.seen.symm)]
      exact hp
  · intro h
    split at h
    · rename_i hl
      exact h.append (hl.trans h.seen)
    · rename_i hl
      obtain rfl := h
      exact .fresh hl

theorem IsTooltip.eq_iff {target : Option String} {r r' : ChartRequest} (h : IsTooltip target r) :
    IsTooltip target r' ↔ r = r' := by
  rw [← request?_eq_some_iff] at h ⊢
  rw [h, Option.some.injEq]

theorem Look.draws_iff {l : Look σ} {r : ChartRequest} (hr : IsTooltip l.seen r) (p : Path) :
    l.Draws t p ↔ (l.world.artifact t r).1 = .ok p := by
  rw [World.artifact_eq_ok_iff]
  constructor
  · rintro ⟨r', text, hr', ha, ht, hp⟩
    obtain rfl := hr.eq_iff.mp hr'
    exact ⟨text, ha, ht, hp⟩
  · rintro ⟨text, ha, ht, hp⟩
    exact ⟨r, text, hr, ha, ht, hp⟩

theorem Look.fails_iff {l : Look σ} {r : ChartRequest} (hr : IsTooltip l.seen r)
    (e : ViewerError) : l.Fails t e ↔ (l.world.artifact t r).1 = .error e := by
  rw [World.artifact_eq_error_iff]
  constructor
  · rintro ⟨r', hr', ha⟩
    obtain rfl := hr.eq_iff.mp hr'
    exact ha
  · intro ha
    exact ⟨r, hr, ha⟩

theorem Look.not_draws {l : Look σ} (hr : ¬ ∃ r, IsTooltip l.seen r) (p : Path) :
    ¬ l.Draws t p :=
  fun ⟨r, _, h, _⟩ => hr ⟨r, h⟩

theorem Look.not_fails {l : Look σ} (hr : ¬ ∃ r, IsTooltip l.seen r) (e : ViewerError) :
    ¬ l.Fails t e :=
  fun ⟨r, h, _⟩ => hr ⟨r, h⟩

/-- All that can come of a look. -/
inductive Comes (t : Tracer σ) (h : Hover) (l : Look σ) : Showing σ → Prop where
  | same (hs : l.seen = h.target) : Comes t h l ⟨h, .ok .unchanged, l.world⟩
  | hidden (hs : l.seen ≠ h.target) (hr : ¬ ∃ r, IsTooltip l.seen r) :
      Comes t h l ⟨{ target := l.seen }, .ok .hidden, l.world⟩
  | drawn {r : ChartRequest} {p : Path} {w : World σ} (hs : l.seen ≠ h.target)
      (hr : IsTooltip l.seen r) (hp : (l.world.artifact t r).1 = .ok p)
      (hw : w.calls = l.world.calls ++ [.render r]) :
      Comes t h l ⟨{ target := l.seen, managed := true, artifact := some p }, .ok (.shown p), w⟩
  | failed {r : ChartRequest} {e : ViewerError} {w : World σ} (hs : l.seen ≠ h.target)
      (hr : IsTooltip l.seen r) (he : (l.world.artifact t r).1 = .error e)
      (hw : w.calls = l.world.calls ++ [.render r]) :
      Comes t h l ⟨{ target := l.seen }, .error e, w⟩

theorem look_comes (t : Tracer σ) (h : Hover) (l : Look σ) :
    Comes t h l (h.look l.target t l.world) := by
  by_cases hs : l.seen = h.target
  · have he : h.look l.target t l.world = ⟨h, .ok .unchanged, l.world⟩ := if_pos hs.symm
    rw [he]
    exact .same hs
  · simp only [look]
    rw [if_neg (show ¬ h.target = l.target.map trimBlank from Ne.symm hs)]
    split
    · rename_i hr
      exact .hidden hs (request?_eq_none_iff.mp hr)
    · rename_i r hr
      have hw := World.calls_artifact (t := t) (w := l.world) r
      split <;> rename_i ha <;> rw [ha] at hw
      · exact .failed hs (request?_eq_some_iff.mp hr) (congrArg Prod.fst ha) hw
      · exact .drawn hs (request?_eq_some_iff.mp hr) (congrArg Prod.fst ha) hw

/-- What holds of a hover state after some looks: it knows what was seen last, and it shows a chart
exactly if one was drawn at the start of the block of equal looks, and then that one. -/
structure Kept (t : Tracer σ) (past : List (Look σ)) (h : Hover) : Prop where
  target : h.target = lastSeen past
  managed : h.managed = true ↔ ∃ p, h.artifact = some p
  artifact : (∀ l ∈ past, l.seen = none) ∧ h.artifact = none ∨
    ∃ first, BlockStart past first ∧ first.seen = lastSeen past ∧
      ∀ p, h.artifact = some p ↔ first.Draws t p

theorem kept_start (t : Tracer σ) : Kept t [] {} :=
  ⟨rfl, by simp, .inl ⟨by simp, rfl⟩⟩

/-- A look at something new begins a block of its own. -/
theorem kept_fresh {past : List (Look σ)} {l : Look σ} (shown : Option Path)
    (hl : l.seen ≠ lastSeen past) (hd : ∀ p, shown = some p ↔ l.Draws t p) :
    Kept t (past ++ [l]) { target := l.seen, managed := shown.isSome, artifact := shown } := by
  refine ⟨(lastSeen_append past l).symm, Option.isSome_iff_exists, .inr ?_⟩
  exact ⟨l, .fresh hl, (lastSeen_append past l).symm, hd⟩

theorem Kept.look {past : List (Look σ)} {h : Hover} (hk : Kept t past h) (l : Look σ) :
    Kept t (past ++ [l]) (h.look l.target t l.world).hover := by
  have hc := look_comes t h l
  generalize h.look l.target t l.world = s at hc
  cases hc with
  | same hs =>
    refine ⟨(lastSeen_append past l).symm ▸ hs.symm, hk.managed, ?_⟩
    have hl : l.seen = lastSeen past := hs.trans hk.target
    rcases hk.artifact with ⟨hn, ha⟩ | ⟨first, hb, hf, hd⟩
    · refine .inl ⟨?_, ha⟩
      intro x hx
      rcases List.mem_append.mp hx with hx | hx
      · exact hn x hx
      · rw [List.mem_singleton.mp hx, hl, lastSeen_of_none hn]
    · exact .inr ⟨first, hb.append (hl.trans hf.symm), by rw [lastSeen_append, hf, hl], hd⟩
  | hidden hs hr =>
    refine kept_fresh none (hk.target ▸ hs) ?_
    intro p
    simp [Look.not_draws hr]
  | drawn hs hr hp hw =>
    refine kept_fresh (some _) (hk.target ▸ hs) ?_
    intro p
    rw [Look.draws_iff hr, hp, Except.ok.injEq, Option.some.injEq]
  | failed hs hr he hw =>
    refine kept_fresh none (hk.target ▸ hs) ?_
    intro p
    rw [Look.draws_iff hr, he]
    simp

theorem Kept.foldl {past : List (Look σ)} {h : Hover} (hk : Kept t past h) (ls : List (Look σ)) :
    Kept t (past ++ ls) (ls.foldl (fun h l => (h.look l.target t l.world).hover) h) := by
  induction ls generalizing past h with
  | nil => simpa using hk
  | cons l rest ih =>
    have := ih (hk.look l)
    rwa [List.append_assoc] at this

/-- What a look does, in terms of what was seen before it. -/
structure Foretold (t : Tracer σ) (past : List (Look σ)) (l : Look σ) (s : Showing σ) : Prop where
  calls : ∀ r, s.world.calls = l.world.calls ++ [.render r] ↔
    l.seen ≠ lastSeen past ∧ IsTooltip l.seen r
  quiet : s.world.calls = l.world.calls ↔
    l.seen = lastSeen past ∨ ¬ ∃ r, IsTooltip l.seen r
  unchanged : s.outcome = .ok .unchanged ↔ l.seen = lastSeen past
  shown : ∀ p, s.outcome = .ok (.shown p) ↔ l.seen ≠ lastSeen past ∧ l.Draws t p
  failed : ∀ e, s.outcome = .error e ↔ l.seen ≠ lastSeen past ∧ l.Fails t e
  hidden : s.outcome = .ok .hidden ↔ l.seen ≠ lastSeen past ∧ ¬ ∃ r, IsTooltip l.seen r
  kept : Kept t (past ++ [l]) s.hover

theorem Kept.foretold {past : List (Look σ)} {h : Hover} (hk : Kept t past h) (l : Look σ) :
    Foretold t past l (h.look l.target t l.world) := by
  have hl := hk.look l
  have hc := look_comes t h l
  have ht := hk.target
  generalize h.look l.target t l.world = s at hc hl
  cases hc with
  | same hs =>
    have hq : l.seen = lastSeen past := hs.trans ht
    constructor <;> simp [hq, hl]
  | hidden hs hr =>
    have hq : l.seen ≠ lastSeen past := ht ▸ hs
    have hn : ∀ r, ¬ IsTooltip l.seen r := fun r h => hr ⟨r, h⟩
    constructor <;> simp [hq, hn, Look.not_draws hr, Look.not_fails hr, hl]
  | drawn hs hr hp hw =>
    have hq : l.seen ≠ lastSeen past := ht ▸ hs
    constructor <;> simp [hq, hw, hr.eq_iff, Look.draws_iff hr, Look.fails_iff hr, hp, hl]
  | failed hs hr he hw =>
    have hq : l.seen ≠ lastSeen past := ht ▸ hs
    constructor <;> simp [hq, hw, hr.eq_iff, Look.draws_iff hr, Look.fails_iff hr, he, hl]

/-- Every look of a series, from the first one on, does what the looks before it foretell. -/
theorem looks_foretold (t : Tracer σ) (past : List (Look σ)) (l : Look σ) :
    Foretold t past l ((afterLooks t past).look l.target t l.world) :=
  ((kept_start t).foldl past).foretold l

end Hover

end TraceViewer
