import TraceViewer.Tracer.Arguments

namespace TraceViewer

theorem Metric.ofToken?_token (m : Metric) : ofToken? m.token = some m := by
  cases m <;> decide

theorem ChartKind.ofToken?_token (k : ChartKind) : ofToken? k.token = some k := by
  cases k <;> decide

theorem OutputFormat.ofToken?_token (f : OutputFormat) : ofToken? f.token = some f := by
  cases f <;> decide

namespace Job

/-- The job as its arguments tell it: a scatter plot has no bins. -/
def told : Job → Job
  | chart r dataDir outDir => chart { r with binCount := r.effectiveBins } dataDir outDir
  | extract elementId metric dataDir destination => extract elementId metric dataDir destination

theorem decode?_word (s : String) : Utf8.decode? (word s) = some s :=
  Utf8.decode?_encode s

theorem word_inj {s s' : String} : word s = word s' ↔ s = s' := by
  constructor
  · intro h
    have hs := decode?_word s
    rw [h, decode?_word] at hs
    exact (Option.some.inj hs).symm
  · exact congrArg word

theorem readNat?_repr (n : Nat) : readNat? (word n.repr) = some n := by
  have hd : ∀ c ∈ Nat.toDigits 10 n, c.isDigit = true :=
    fun c hc => Nat.isDigit_of_mem_toDigits (by decide) (by decide) hc
  simpa [readNat?, decode?_word, Nat.repr_ne_empty, Nat.toList_repr] using hd

theorem readKind?_token (k : ChartKind) : readTail?.readKind? (word k.token) = some k := by
  rw [readTail?.readKind?, decode?_word, Option.bind_some, ChartKind.ofToken?_token]

theorem readFormat?_token (f : OutputFormat) : readTail?.readFormat? (word f.token) = some f := by
  rw [readTail?.readFormat?, decode?_word, Option.bind_some, OutputFormat.ofToken?_token]

/-- No chart kind is taken for the format option. -/
theorem token_ne_format (k : ChartKind) : word k.token ≠ word "--output-format" := by
  rw [ne_eq, word_inj]
  cases k <;> decide

/-- The optional arguments are read back, whichever of them are there. -/
theorem readTail?_arguments (r : ChartRequest) :
    readTail? (formatArguments r.format ++ (word r.chartKind.token :: binArguments r)) =
      some (r.format, r.chartKind, r.effectiveBins) := by
  unfold formatArguments binArguments
  split
  · rename_i hf
    cases hb : r.effectiveBins with
    | none => simp [readTail?, readKind?_token, hf]
    | some n => simp [readTail?, readKind?_token, readNat?_repr, token_ne_format, hf]
  · cases hb : r.effectiveBins with
    | none => simp [readTail?, readKind?_token, readFormat?_token]
    | some n => simp [readTail?, readKind?_token, readFormat?_token, readNat?_repr]

theorem ofArguments?_arguments (job : Job) : ofArguments? job.arguments = some job.told := by
  cases job with
  | chart r dataDir outDir =>
    simp [arguments, ofArguments?, decode?_word, Metric.ofToken?_token, readNat?_repr,
      readTail?_arguments, told]
  | extract elementId metric dataDir destination =>
    simp [arguments, ofArguments?, decode?_word, Metric.ofToken?_token, told]

theorem arguments_told (job : Job) : job.told.arguments = job.arguments := by
  cases job with
  | chart r dataDir outDir =>
    have hb : ({ r with binCount := r.effectiveBins } : ChartRequest).effectiveBins =
        r.effectiveBins := by
      cases hk : r.chartKind <;> simp [ChartRequest.effectiveBins, hk]
    simp only [told, arguments, binArguments, hb]
  | extract elementId metric dataDir destination => rfl

/-- Two jobs have the same arguments exactly if these tell the same of them. -/
theorem arguments_inj {job job' : Job} : job.arguments = job'.arguments ↔ job.told = job'.told := by
  constructor
  · intro h
    have hj := ofArguments?_arguments job
    rw [h, ofArguments?_arguments] at hj
    exact (Option.some.inj hj).symm
  · intro h
    rw [← arguments_told, h, arguments_told]

end Job

end TraceViewer
