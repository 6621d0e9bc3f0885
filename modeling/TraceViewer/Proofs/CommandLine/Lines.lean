import TraceViewer.Proofs.CommandLine.Readings

namespace TraceViewer

namespace CommandLine

/-- A command line that gives these positionals and these options, both in the order in which they
stand there. -/
inductive Written : List String → List String → List (ValueOption × String) → Prop
  | nil : Written [] [] []
  /-- Behind two hyphens every word is a positional. -/
  | ended (positionals : List String) : Written ("--" :: positionals) positionals []
  | positional {word : String} {words positionals : List String}
      {options : List (ValueOption × String)} (plain : IsPlain word)
      (rest : Written words positionals options) :
      Written (word :: words) (word :: positionals) options
  | joined {o : ValueOption} {v : String} {words positionals : List String}
      {options : List (ValueOption × String)} (rest : Written words positionals options) :
      Written ((o.flag ++ "=" ++ v) :: words) positionals ((o, v) :: options)
  | apart {o : ValueOption} {v : String} {words positionals : List String}
      {options : List (ValueOption × String)} (plain : IsPlain v)
      (rest : Written words positionals options) :
      Written (o.flag :: v :: words) positionals ((o, v) :: options)

variable {ps ps' words : List String} {os os' : List (ValueOption × String)} {r q : Reading}

/-- What is written is read, behind whatever was read before. -/
theorem readWords_of_written (hw : Written words ps' os') (h : Carries ps os r)
    (hr : r.ended = false) (ha : Acceptable (ps ++ ps') (os ++ os')) :
    ∃ ended, readWords r words = .ok (takenUp (ps ++ ps') (os ++ os') ended) := by
  induction hw generalizing ps os r with
  | nil => exact ⟨r.ended, by simpa [readWords] using h.released⟩
  | ended positionals =>
    rw [List.append_nil] at ha ⊢
    refine ⟨true, readWords_cons_eq_ok_iff.mpr ⟨_, .ending hr, ?_⟩⟩
    exact (readWords_ended h.ending rfl).mpr ⟨ha, rfl⟩
  | @positional v _ _ _ plain _ ih =>
    rw [List.append_cons] at ha ⊢
    have hv : Acceptable (ps ++ [v]) os := ha.left
    obtain ⟨ended, hq⟩ := ih (.positional hv) hr ha
    exact ⟨ended, readWords_cons_eq_ok_iff.mpr ⟨_, h.reads_positional (.inr plain) hv, hq⟩⟩
  | @joined o v _ _ _ _ ih =>
    rw [List.append_cons os] at ha ⊢
    have ho : Acceptable ps (os ++ [(o, v)]) := ha.left
    obtain ⟨ended, hq⟩ := ih (.of_acceptable ho) hr ha
    refine ⟨ended, readWords_cons_eq_ok_iff.mpr ⟨_, .joined hr h.released ?_, hq⟩⟩
    exact (takeUp_option_eq_ok_iff h.acceptable).mpr ⟨ho, rfl⟩
  | @apart o v _ _ _ plain _ ih =>
    rw [List.append_cons os] at ha ⊢
    have ho : Acceptable ps (os ++ [(o, v)]) := ha.left
    obtain ⟨ended, hq⟩ := ih (.option ho) hr ha
    refine ⟨ended, readWords_cons_eq_ok_iff.mpr ⟨_, .flag hr h.released, ?_⟩⟩
    exact readWords_cons_eq_ok_iff.mpr ⟨_, .value hr plain rfl, hq⟩

/-- What can be read was written. -/
theorem exists_written_of_readWords {words ps : List String}
    {os : List (ValueOption × String)} {r q : Reading} (h : Carries ps os r) (hr : r.ended = false)
    (hq : readWords r words = .ok q) :
    ∃ ps' os' ended, Written words ps' os' ∧ Acceptable (ps ++ ps') (os ++ os') ∧
      takenUp (ps ++ ps') (os ++ os') ended = q := by
  cases words with
  | nil =>
    have hr : release r = .ok q := hq
    refine ⟨[], [], r.ended, .nil, by simpa using h.acceptable, ?_⟩
    simpa [h.released] using hr
  | cons word words =>
    obtain ⟨r', hs, hq⟩ := readWords_cons_eq_ok_iff.mp hq
    cases hs with
    | positional free room released =>
      obtain ⟨ps', os', ended, hw, ha, rfl⟩ := exists_written_of_readWords
        (h.of_positional room released hq) ((release_keeps released).2.trans hr) hq
      rw [← List.append_cons] at ha ⊢
      exact ⟨word :: ps', os', ended, .positional (free.resolve_left (by simp [hr])) hw, ha, rfl⟩
    | ending _ =>
      obtain ⟨ha, rfl⟩ := (readWords_ended h.ending rfl).mp hq
      exact ⟨words, [], true, .ended words, by simpa using ha, by simp⟩
    | @joined o v _ _ _ released taken =>
      obtain rfl := Except.ok.inj (h.released.symm.trans released)
      obtain ⟨ho, rfl⟩ := (takeUp_option_eq_ok_iff h.acceptable).mp taken
      obtain ⟨ps', os', ended, hw, ha, rfl⟩ := exists_written_of_readWords (.of_acceptable ho) hr hq
      rw [← List.append_cons] at ha ⊢
      exact ⟨ps', (o, v) :: os', ended, .joined hw, ha, rfl⟩
    | @flag o _ _ released =>
      obtain rfl := Except.ok.inj (h.released.symm.trans released)
      obtain ⟨v, words, rfl, plain, hq⟩ := readWords_waiting rfl hq
      -- the value is held back, so only the rest of the words shows that it is acceptable
      have ho : Acceptable ps (os ++ [(o, v)]) := by
        obtain ⟨⟨o, ho⟩, _⟩ | ⟨q', ht⟩ := released_of_readWords hq
        · cases ho
        · exact ((takeUp_option_eq_ok_iff h.acceptable).mp ht).1
      obtain ⟨ps', os', ended, hw, ha, rfl⟩ := exists_written_of_readWords (.option ho) hr hq
      rw [← List.append_cons] at ha ⊢
      exact ⟨ps', (o, v) :: os', ended, .apart plain hw, ha, rfl⟩
    | value _ _ waits =>
      cases h.released.symm.trans (release_waiting waits)
-- an option that stands apart from its value takes two words at once
termination_by words.length

/-- The values that a command line is to give. -/
structure Values where
  source : String
  tracer : String
  data : String
  scratch? : Option String
  log? : Option String

namespace Values

def positionals (values : Values) : List String :=
  [values.source, values.tracer, values.data]

def options (values : Values) : List (ValueOption × String) :=
  (values.scratch?.map (.scratchDir, ·)).toList ++ (values.log?.map (.log, ·)).toList

def invocation (values : Values) : Invocation where
  sourceFile := .ofString values.source
  tracerProgram := .ofString values.tracer
  dataDir := .ofString values.data
  scratchDir := values.scratch?.map .ofString
  log := values.log?.getD "info"

/-- A command line gives these values, its options in either order and no path empty. -/
structure GivenBy (values : Values) (words : List String) : Prop where
  paths : "" ∉ values.positionals ++ values.scratch?.toList
  written : ∃ options, options.Perm values.options ∧ Written words values.positionals options

variable {values : Values}

theorem nodup_options (values : Values) : (values.options.map Prod.fst).Nodup := by
  cases hs : values.scratch? <;> cases hl : values.log? <;> simp [options, hs, hl]

theorem lookup_options (values : Values) : values.options.lookup .scratchDir = values.scratch? ∧
    values.options.lookup .log = values.log? := by
  cases hs : values.scratch? <;> cases hl : values.log? <;> simp only [options, hs, hl] <;>
    exact ⟨rfl, rfl⟩

/-- The same options in either order are options that differ and are given the same values. -/
theorem perm_options_iff : os.Perm values.options ↔ (os.map Prod.fst).Nodup ∧
    os.lookup .scratchDir = values.scratch? ∧ os.lookup .log = values.log? := by
  have hn := values.nodup_options
  have hv := values.lookup_options
  constructor
  · intro hp
    refine ⟨(hp.map Prod.fst).nodup_iff.mpr hn, ?_⟩
    rw [lookup_perm hp hn, lookup_perm hp hn]
    exact hv
  · rintro ⟨ho, hs, hl⟩
    rw [List.perm_ext_iff_of_nodup ho.of_map hn.of_map]
    rintro ⟨o, v⟩
    rw [← lookup_eq_some_iff_mem ho, ← lookup_eq_some_iff_mem hn]
    cases o with
    | scratchDir => rw [hs, hv.1]
    | log => rw [hl, hv.2]

/-- The values that a command line gives are acceptable exactly if no path is empty. -/
theorem acceptable_iff (hp : os.Perm values.options) :
    Acceptable values.positionals os ↔ "" ∉ values.positionals ++ values.scratch?.toList := by
  obtain ⟨hn, hs, -⟩ := perm_options_iff.mp hp
  have hm : (.scratchDir, "") ∈ os ↔ "" ∈ values.scratch?.toList := by
    rw [← lookup_eq_some_iff_mem hn, hs, Option.mem_toList]
  rw [List.mem_append, not_or, ← hm]
  exact ⟨fun h => ⟨h.named, h.scratch⟩, fun h => ⟨Nat.le_refl _, h.1, hn, h.2⟩⟩

end Values

theorem parse_eq_ok_iff {i : Invocation} :
    parse words = .ok i ↔ ∃ (values : Values) (r : Reading), readWords {} words = .ok r ∧
      r.positionals = values.positionals ∧ r.scratchDir = values.scratch? ∧
      r.log = values.log? ∧ values.invocation = i := by
  rw [parse, bind_eq_ok]
  constructor
  · rintro ⟨r, hr, h⟩
    split at h
    · rename_i source tracer data hp
      exact ⟨⟨source, tracer, data, r.scratchDir, r.log⟩, r, hr, hp, rfl, rfl, Except.ok.inj h⟩
    · cases h
  · rintro ⟨values, r, hr, hp, hs, hl, rfl⟩
    refine ⟨r, hr, ?_⟩
    rw [hp, hs, hl]
    rfl

theorem parse_of_givenBy {values : Values} (h : values.GivenBy words) :
    parse words = .ok values.invocation := by
  obtain ⟨paths, os, hp, hw⟩ := h
  obtain ⟨-, hs, hl⟩ := Values.perm_options_iff.mp hp
  obtain ⟨ended, hr⟩ := readWords_of_written hw .start rfl ((Values.acceptable_iff hp).mpr paths)
  exact parse_eq_ok_iff.mpr ⟨values, _, hr, rfl, hs, hl, rfl⟩

theorem exists_givenBy_of_parse {i : Invocation} (h : parse words = .ok i) :
    ∃ values : Values, values.GivenBy words ∧ values.invocation = i := by
  obtain ⟨values, r, hr, hpos, hs, hl, rfl⟩ := parse_eq_ok_iff.mp h
  obtain ⟨ps, os, ended, hw, ha, rfl⟩ := exists_written_of_readWords .start rfl hr
  obtain rfl : ps = values.positionals := hpos
  have hp : os.Perm values.options := Values.perm_options_iff.mpr ⟨ha.once, hs, hl⟩
  exact ⟨values, ⟨(Values.acceptable_iff hp).mp ha, os, hp, hw⟩, rfl⟩

/-- A command line is read as the values that it gives: the options may stand anywhere among the
positionals and in either order, each with its value joined to it or apart, and positionals that
begin with a hyphen may follow two hyphens. No other command line is read. -/
theorem parse_written (words : List String) :
    (∀ values : Values, values.GivenBy words → parse words = .ok values.invocation) ∧
    ∀ i, parse words = .ok i → ∃ values : Values, values.GivenBy words ∧ values.invocation = i :=
  ⟨fun _ => parse_of_givenBy, fun _ => exists_givenBy_of_parse⟩

theorem parse_written_of_hyphens :
    let values : Values := ⟨"graph.dot", "-", "data", some "--log=x", some "debug"⟩
    let words := ["--log", "debug", "graph.dot", "--scratch-dir=--log=x", "-", "data"]
    let hidden : Values := ⟨"--log", "-h", "--", some "out", none⟩
    let ended := ["--scratch-dir", "out", "--", "--log", "-h", "--"]
    values.GivenBy words ∧ parse words = .ok values.invocation ∧
      parse ended = .ok hidden.invocation ∧
      ∃ values : Values, values.GivenBy ended ∧ values.invocation = hidden.invocation := by
  intro values words hidden ended
  have hw : words = [ValueOption.log.flag, "debug", "graph.dot",
      ValueOption.scratchDir.flag ++ "=" ++ "--log=x", "-", "data"] := by decide +kernel
  have hg : values.GivenBy words := by
    refine ⟨by decide, [(.log, "debug"), (.scratchDir, "--log=x")], .swap .., ?_⟩
    rw [hw]
    exact .apart (by decide) (.positional (by decide) (.joined (.positional (by decide)
      (.positional (by decide) .nil))))
  have he : parse ended = .ok hidden.invocation := rfl
  exact ⟨hg, (parse_written words).1 values hg, he, (parse_written ended).2 _ he⟩

end CommandLine

end TraceViewer
