import Mathlib.Data.List.TakeWhile
import TraceViewer.CommandLine

namespace TraceViewer

namespace CommandLine

def ValueOption.name : ValueOption → String
  | scratchDir => "scratch-dir"
  | log => "log"

/-- The word that announces the value of an option. -/
def ValueOption.flag (o : ValueOption) : String :=
  "--" ++ o.name

/-- A word stands for itself, and is not taken for a flag, if it begins with no hyphen or is one. -/
def IsPlain (word : String) : Prop :=
  word.toList.head? = some '-' → word = "-"

instance (word : String) : Decidable (IsPlain word) :=
  inferInstanceAs (Decidable (_ → _))

variable {r r' q : Reading} {o : ValueOption} {word v : String} {name value : List Char}

/-- The words that are taken for flags begin with a hyphen and have a second character. -/
theorem isPlain_iff : IsPlain word ↔ ∀ c rest, word.toList ≠ '-' :: c :: rest := by
  constructor
  · intro hw c rest ht
    obtain rfl := hw (by simp [ht])
    simp at ht
  · intro hn hh
    obtain ⟨rest, ht⟩ := List.head?_eq_some_iff.mp hh
    cases rest with
    | nil => simp [← String.toList_inj, ht]
    | cons c rest => exact absurd ht (hn c rest)

theorem toList_flag (o : ValueOption) : o.flag.toList = '-' :: '-' :: o.name.toList := by
  simp [ValueOption.flag]

theorem equals_not_mem_name (o : ValueOption) : '=' ∉ o.name.toList := by
  cases o <;> decide

theorem ofName?_eq_some_iff : ValueOption.ofName? name = some o ↔ name = o.name.toList := by
  unfold ValueOption.ofName?
  constructor
  · intro h
    split at h
    · obtain rfl := Option.some.inj h
      assumption
    split at h
    · obtain rfl := Option.some.inj h
      assumption
    · cases h
  · rintro rfl
    cases o <;> decide

theorem bind_eq_ok {α β ε : Type} {x : Except ε α} {f : α → Except ε β} {b : β} :
    (x >>= f) = .ok b ↔ ∃ a, x = .ok a ∧ f a = .ok b := by
  cases x <;> simp [bind, Except.bind]

theorem readPositional_eq_ok_iff :
    readPositional r v = .ok r' ↔ r.seen ≠ positionalCount ∧ ∃ q, release r = .ok q ∧
      { q with held := some (.positional, some v), seen := r.seen + 1 } = r' := by
  unfold readPositional
  split
  · simp [*]
  · simp [*, bind_eq_ok]

theorem readLong_name_eq_ok_iff (hn : '=' ∉ name) :
    readLong r name = .ok r' ↔ ∃ o q, name = o.name.toList ∧ release r = .ok q ∧
      { q with held := some (.option o, none) } = r' := by
  have ht : name.takeWhile (· != '=') = name := by
    rw [List.takeWhile_eq_self_iff]
    grind
  have hd : name.dropWhile (· != '=') = [] := by
    rw [List.dropWhile_eq_nil_iff]
    grind
  simp only [readLong, ht, hd, ← ofName?_eq_some_iff]
  cases ValueOption.ofName? name with
  | none => cases flagOfName? name <;> simp [bind_eq_ok]
  | some o => simp [bind_eq_ok]

theorem readLong_value_eq_ok_iff (hn : '=' ∉ name) :
    readLong r (name ++ '=' :: value) = .ok r' ↔ ∃ o q, name = o.name.toList ∧
      release r = .ok q ∧ takeUp q (.option o) (String.ofList value) = .ok r' := by
  have hp : ∀ c ∈ name, (c != '=') = true := by grind
  have ht : (name ++ '=' :: value).takeWhile (· != '=') = name := by
    simp [List.takeWhile_append_of_pos hp]
  have hd : (name ++ '=' :: value).dropWhile (· != '=') = '=' :: value := by
    simp [List.dropWhile_append_of_pos hp]
  simp only [readLong, ht, hd, ← ofName?_eq_some_iff]
  cases ValueOption.ofName? name with
  | none => cases flagOfName? name <;> simp
  | some o => simp [bind_eq_ok]

theorem release_waiting (h : r.held = some (.option o, none)) :
    release r = .error .invalidValue := by
  simp [release, h]

/-- What reading one more word can make of a reading. -/
inductive Reads (r : Reading) : String → Reading → Prop
  | positional {word : String} {q : Reading} (free : r.ended = true ∨ IsPlain word)
      (room : r.seen ≠ positionalCount) (released : release r = .ok q) :
      Reads r word { q with held := some (.positional, some word), seen := r.seen + 1 }
  | ending (options : r.ended = false) : Reads r "--" { r with ended := true }
  | joined {o : ValueOption} {v : String} {q q' : Reading} (options : r.ended = false)
      (released : release r = .ok q) (taken : takeUp q (.option o) v = .ok q') :
      Reads r (o.flag ++ "=" ++ v) q'
  | flag {o : ValueOption} {q : Reading} (options : r.ended = false)
      (released : release r = .ok q) : Reads r o.flag { q with held := some (.option o, none) }
  | value {o : ValueOption} {word : String} (options : r.ended = false) (plain : IsPlain word)
      (waits : r.held = some (.option o, none)) :
      Reads r word { r with held := some (.option o, some word) }

theorem readValue_eq_ok_iff :
    readValue r v = .ok r' ↔ (∃ o, r.held = some (.option o, none) ∧
        { r with held := some (.option o, some v) } = r') ∨
      readPositional r v = .ok r' := by
  unfold readValue
  split
  · rename_i o hh
    simp [readPositional_eq_ok_iff, release_waiting hh, hh]
  · rename_i hh
    have hn (o : ValueOption) : r.held ≠ some (.option o, none) := fun ho => hh o ho
    simp [hn]

theorem readShort_ne_ok (c : Char) : readShort r c ≠ .ok r' := by
  unfold readShort
  split <;> simp [bind_eq_ok]

theorem readWord_ended (hr : r.ended = true) : readWord r word = readPositional r word := by
  rw [readWord, if_pos hr]

theorem readWord_plain (hr : r.ended = false) (hw : IsPlain word) :
    readWord r word = readValue r word := by
  rw [isPlain_iff] at hw
  simp only [readWord, hr, Bool.false_eq_true, if_false]
  split
  · rename_i ht
    exact absurd ht (hw _ _)
  · rename_i ht
    exact absurd ht (hw _ _)
  · rename_i ht
    exact absurd ht (hw _ _)
  · rfl

theorem readWord_flag (hr : r.ended = false) (ht : word.toList = '-' :: '-' :: name)
    (hn : name ≠ []) : readWord r word = readLong r name := by
  obtain ⟨c, name, rfl⟩ := List.exists_cons_of_ne_nil hn
  simp only [readWord, hr, ht, Bool.false_eq_true, if_false]

theorem Reads.readWord (h : Reads r word r') : readWord r word = .ok r' := by
  cases h with
  | positional free room released =>
    have hp := (readPositional_eq_ok_iff (v := word)).mpr ⟨room, _, released, rfl⟩
    cases he : r.ended with
    | true => rw [readWord_ended he, hp]
    | false =>
      rw [readWord_plain he (free.resolve_left (by simp [he])), readValue_eq_ok_iff]
      exact .inr hp
  | ending options => simp [CommandLine.readWord, options]
  | joined options released taken =>
    rename_i o v q
    have ht : (o.flag ++ "=" ++ v).toList = '-' :: '-' :: (o.name.toList ++ '=' :: v.toList) := by
      simp [toList_flag]
    rw [readWord_flag options ht (by simp), readLong_value_eq_ok_iff (equals_not_mem_name o),
      String.ofList_toList]
    exact ⟨_, _, rfl, released, taken⟩
  | flag options released =>
    rename_i o q
    rw [readWord_flag options (toList_flag o) (by cases o <;> decide),
      readLong_name_eq_ok_iff (equals_not_mem_name o)]
    exact ⟨_, _, rfl, released, rfl⟩
  | value options plain waits =>
    rw [readWord_plain options plain, readValue_eq_ok_iff]
    exact .inl ⟨_, waits, rfl⟩

theorem reads_of_readLong (hr : r.ended = false) (ht : word.toList = '-' :: '-' :: name)
    (h : readLong r name = .ok r') : Reads r word r' := by
  by_cases he : '=' ∈ name
  · obtain ⟨name, value, rfl, hn⟩ := List.eq_append_cons_of_mem he
    obtain ⟨o, q, rfl, released, taken⟩ := (readLong_value_eq_ok_iff hn).mp h
    have hw : word = o.flag ++ "=" ++ String.ofList value := by
      simp [← String.toList_inj, ht, toList_flag]
    exact hw ▸ .joined hr released taken
  · obtain ⟨o, q, rfl, released, rfl⟩ := (readLong_name_eq_ok_iff he).mp h
    have hw : word = o.flag := by
      simp [← String.toList_inj, ht, toList_flag]
    exact hw ▸ .flag hr released

theorem readWord_eq_ok_iff : readWord r word = .ok r' ↔ Reads r word r' := by
  refine ⟨fun h => ?_, Reads.readWord⟩
  unfold CommandLine.readWord at h
  split at h
  · rename_i he
    obtain ⟨hs, q, hq, rfl⟩ := readPositional_eq_ok_iff.mp h
    exact .positional (.inl he) hs hq
  rename_i he
  have hr : r.ended = false := by simpa using he
  split at h
  · rename_i ht
    obtain rfl := Except.ok.inj h
    have hw : word = "--" := by simp [← String.toList_inj, ht]
    exact hw ▸ .ending hr
  · rename_i ht
    exact reads_of_readLong hr ht h
  · exact absurd h (readShort_ne_ok _)
  · rename_i hn₁ hn₂ hn
    have hw : IsPlain word := isPlain_iff.mpr fun c rest ht => hn c rest ht
    rcases readValue_eq_ok_iff.mp h with ⟨o, waits, rfl⟩ | hp
    · exact .value hr hw waits
    · obtain ⟨hs, q, hq, rfl⟩ := readPositional_eq_ok_iff.mp hp
      exact .positional (.inr hw) hs hq

end CommandLine

end TraceViewer
