import Mathlib.Data.List.Nodup
import TraceViewer.Proofs.CommandLine.Words
import TraceViewer.Proofs.Lookup

namespace TraceViewer

namespace CommandLine

/-- There are no more positionals than asked for, no path is empty, and no option is given twice. -/
structure Acceptable (positionals : List String) (options : List (ValueOption × String)) :
    Prop where
  few : positionals.length ≤ positionalCount
  named : "" ∉ positionals
  once : (options.map Prod.fst).Nodup
  scratch : (.scratchDir, "") ∉ options

/-- The reading in which all these values are taken up. -/
def takenUp (positionals : List String) (options : List (ValueOption × String)) (ended : Bool) :
    Reading where
  positionals := positionals
  scratchDir := options.lookup .scratchDir
  log := options.lookup .log
  seen := positionals.length
  ended := ended

variable {ps ps' words : List String} {os os' : List (ValueOption × String)}
  {o : ValueOption} {v word : String} {r r' q : Reading} {slot : Slot} {ended : Bool}

namespace Acceptable

theorem left (h : Acceptable (ps ++ ps') (os ++ os')) : Acceptable ps os where
  few := by
    have hl := h.few
    rw [List.length_append] at hl
    omega
  named hm := h.named (List.mem_append_left _ hm)
  once := by
    have hn := h.once
    rw [List.map_append] at hn
    exact hn.of_append_left
  scratch hm := h.scratch (List.mem_append_left _ hm)

theorem left_positionals (h : Acceptable (ps ++ ps') os) : Acceptable ps os := by
  rw [← List.append_nil os] at h
  exact h.left

theorem left_options (h : Acceptable ps (os ++ os')) : Acceptable ps os := by
  rw [← List.append_nil ps] at h
  exact h.left

theorem positional_iff (h : Acceptable ps os) :
    Acceptable (ps ++ [v]) os ↔ ps.length ≠ positionalCount ∧ v ≠ "" := by
  constructor
  · intro h'
    have hl := h'.few
    have hn := h'.named
    simp only [List.length_append, List.length_singleton, List.mem_append, List.mem_singleton,
      not_or] at hl hn
    exact ⟨by omega, fun hv => hn.2 hv.symm⟩
  · rintro ⟨hl, hv⟩
    refine ⟨?_, by simp [h.named, hv.symm], h.once, h.scratch⟩
    have := h.few
    rw [List.length_append, List.length_singleton]
    omega

theorem option_iff (h : Acceptable ps os) :
    Acceptable ps (os ++ [(o, v)]) ↔ os.lookup o = none ∧ (o = .scratchDir → v ≠ "") := by
  rw [lookup_eq_none_iff_not_mem]
  constructor
  · intro h'
    have hn := h'.once
    have hs := h'.scratch
    rw [List.map_append, List.nodup_append] at hn
    refine ⟨fun hm => hn.2.2 o hm o (by simp) rfl, ?_⟩
    rintro rfl rfl
    exact hs (by simp)
  · rintro ⟨ho, hv⟩
    refine ⟨h.few, h.named, ?_, ?_⟩
    · rw [List.map_append, List.nodup_append]
      refine ⟨h.once, by simp, ?_⟩
      intro o' hm _ hm' rfl
      obtain rfl : o' = o := by simpa using hm'
      exact ho hm
    · have hs := h.scratch
      grind

end Acceptable

/-- An option is taken up if it is given for the first time and with no empty path. -/
theorem takeUp_option_eq_ok_iff (h : Acceptable ps os) :
    takeUp (takenUp ps os ended) (.option o) v = .ok q ↔
      Acceptable ps (os ++ [(o, v)]) ∧ takenUp ps (os ++ [(o, v)]) ended = q := by
  rw [h.option_iff]
  cases o with
  | scratchDir =>
    have ho : List.lookup ValueOption.log [(.scratchDir, v)] = none := rfl
    by_cases hl : os.lookup .scratchDir = none
    · by_cases hv : v = "" <;> simp [takeUp, takenUp, List.lookup_append, ho, hl, hv]
    · simp [takeUp, takenUp, hl, Option.isSome_iff_ne_none]
  | log =>
    have ho : List.lookup ValueOption.scratchDir [(.log, v)] = none := rfl
    by_cases hl : os.lookup .log = none
    · simp [takeUp, takenUp, List.lookup_append, ho, hl]
    · simp [takeUp, takenUp, hl, Option.isSome_iff_ne_none]

theorem takeUp_positional_eq_ok_iff (h : Acceptable ps os) (room : ps.length ≠ positionalCount) :
    takeUp { takenUp ps os ended with seen := ps.length + 1 } .positional v = .ok q ↔
      Acceptable (ps ++ [v]) os ∧ takenUp (ps ++ [v]) os ended = q := by
  rw [h.positional_iff]
  by_cases hv : v = "" <;> simp [takeUp, takenUp, hv, room]

theorem takeUp_keeps (h : takeUp r slot v = .ok q) : q.seen = r.seen ∧ q.ended = r.ended := by
  unfold takeUp at h
  grind

theorem release_keeps (h : release r = .ok q) : q.seen = r.seen ∧ q.ended = r.ended := by
  unfold release at h
  split at h
  · simp_all
  · simp at h
  · have hk := takeUp_keeps h
    exact hk

theorem release_ending (r : Reading) :
    release { r with ended := true } = (release r).map fun q => { q with ended := true } := by
  simp only [release]
  split
  · rfl
  · rfl
  · unfold takeUp
    grind [Except.map]

/-- These values were read, of which the last one may be held back yet. -/
structure Carries (positionals : List String) (options : List (ValueOption × String))
    (r : Reading) : Prop where
  acceptable : Acceptable positionals options
  released : release r = .ok (takenUp positionals options r.ended)

namespace Carries

theorem seen (h : Carries ps os r) : r.seen = ps.length :=
  (release_keeps h.released).1.symm

theorem start : Carries [] [] {} :=
  ⟨⟨by simp [positionalCount], by simp, by simp, by simp⟩, rfl⟩

theorem of_acceptable (h : Acceptable ps os) : Carries ps os (takenUp ps os ended) :=
  ⟨h, rfl⟩

theorem ending (h : Carries ps os r) : Carries ps os { r with ended := true } := by
  refine ⟨h.acceptable, ?_⟩
  rw [release_ending, h.released]
  rfl

/-- A positional that is held back counts as read. -/
theorem positional (h : Acceptable (ps ++ [v]) os) :
    Carries (ps ++ [v]) os
      { takenUp ps os ended with held := some (.positional, some v), seen := ps.length + 1 } := by
  have ha : Acceptable ps os := h.left_positionals
  refine ⟨h, ?_⟩
  exact (takeUp_positional_eq_ok_iff ha (ha.positional_iff.mp h).1).mpr ⟨h, rfl⟩

theorem option (h : Acceptable ps (os ++ [(o, v)])) :
    Carries ps (os ++ [(o, v)])
      { takenUp ps os ended with held := some (.option o, some v) } :=
  ⟨h, (takeUp_option_eq_ok_iff h.left_options).mpr ⟨h, rfl⟩⟩

end Carries

theorem readWords_cons_eq_ok_iff :
    readWords r (word :: words) = .ok q ↔ ∃ r', Reads r word r' ∧ readWords r' words = .ok q := by
  simp only [readWords, ← readWord_eq_ok_iff]
  cases readWord r word <;> simp

/-- If all words can be read, what is held back can be taken up, unless it waits for its value. -/
theorem released_of_readWords (h : readWords r words = .ok q) :
    (∃ o, r.held = some (.option o, none)) ∧ r.ended = false ∨ ∃ q', release r = .ok q' := by
  induction words generalizing r with
  | nil => exact .inr ⟨q, h⟩
  | cons word words ih =>
    obtain ⟨r', hr, h⟩ := readWords_cons_eq_ok_iff.mp h
    cases hr with
    | positional _ _ released => exact .inr ⟨_, released⟩
    | joined _ released _ => exact .inr ⟨_, released⟩
    | flag _ released => exact .inr ⟨_, released⟩
    | value options _ waits => exact .inl ⟨⟨_, waits⟩, options⟩
    | ending options =>
      obtain ⟨_, he⟩ | ⟨q', hq⟩ := ih h
      · cases he
      · rw [release_ending] at hq
        cases hr : release r with
        | error e => simp [hr, Except.map] at hq
        | ok q => exact .inr ⟨q, rfl⟩

/-- After an option that waits for its value, a plain word has to follow. -/
theorem readWords_waiting (hw : r.held = some (.option o, none)) (h : readWords r words = .ok q) :
    ∃ v rest, words = v :: rest ∧ IsPlain v ∧
      readWords { r with held := some (.option o, some v) } rest = .ok q := by
  have hn {q' : Reading} : release r ≠ .ok q' := by
    rw [release_waiting hw]
    simp
  cases words with
  | nil => exact absurd h hn
  | cons word words =>
    obtain ⟨r', hr, h⟩ := readWords_cons_eq_ok_iff.mp h
    cases hr with
    | positional _ _ released => exact absurd released hn
    | joined _ released _ => exact absurd released hn
    | flag _ released => exact absurd released hn
    | value _ plain waits =>
      rw [hw] at waits
      cases waits
      exact ⟨word, words, rfl, plain, h⟩
    | ending _ =>
      obtain ⟨_, he⟩ | ⟨q', hq⟩ := released_of_readWords h
      · cases he
      · rw [release_ending, release_waiting hw] at hq
        cases hq

theorem Carries.reads_positional (h : Carries ps os r) (free : r.ended = true ∨ IsPlain v)
    (hv : Acceptable (ps ++ [v]) os) :
    Reads r v { takenUp ps os r.ended with
      held := some (.positional, some v), seen := ps.length + 1 } := by
  have room : r.seen ≠ positionalCount := h.seen ▸ (h.acceptable.positional_iff.mp hv).1
  rw [← h.seen]
  exact .positional free room h.released

/-- A positional is checked no sooner than the words after it are read. -/
theorem Carries.of_positional (h : Carries ps os r) (room : r.seen ≠ positionalCount)
    (released : release r = .ok r')
    (hq : readWords { r' with held := some (.positional, some v), seen := r.seen + 1 } words =
      .ok q) :
    Carries (ps ++ [v]) os
      { r' with held := some (.positional, some v), seen := r.seen + 1 } := by
  obtain rfl := Except.ok.inj (h.released.symm.trans released)
  rw [h.seen] at room hq ⊢
  obtain ⟨⟨o, ho⟩, _⟩ | ⟨q', ht⟩ := released_of_readWords hq
  · cases ho
  · exact .positional ((takeUp_positional_eq_ok_iff h.acceptable room).mp ht).1

/-- Once the options have ended, all words are positionals. -/
theorem readWords_ended (h : Carries ps os r) (he : r.ended = true) :
    readWords r ps' = .ok q ↔ Acceptable (ps ++ ps') os ∧ takenUp (ps ++ ps') os true = q := by
  induction ps' generalizing ps r with
  | nil => simp [readWords, h.released, h.acceptable, he]
  | cons v ps' ih =>
    rw [readWords_cons_eq_ok_iff, List.append_cons]
    constructor
    · rintro ⟨r', hr, hq⟩
      cases hr with
      | positional _ room released =>
        exact (ih (h.of_positional room released hq) ((release_keeps released).2.trans he)).mp hq
      | _ options => simp [he] at options
    · rintro ⟨ha, hq⟩
      have hv : Acceptable (ps ++ [v]) os := ha.left_positionals
      exact ⟨_, h.reads_positional (.inl he) hv, (ih (.positional hv) he).mpr ⟨ha, hq⟩⟩

end CommandLine

end TraceViewer
