import TraceViewer.Export
import TraceViewer.Proofs.Files.Names

namespace TraceViewer

/-- The extension of a name follows its last dot, unless that dot opens the name. -/
theorem Path.extensionOf?_eq_some_iff {name ext : Name} :
    extensionOf? name = some ext ↔ ∃ stem, name = stem ++ dot :: ext ∧ stem ≠ [] ∧ dot ∉ ext := by
  constructor
  · intro h
    have he := List.takeWhile_append_dropWhile (p := (· != dot)) (l := name.reverse)
    simp only [extensionOf?] at h
    split at h
    · rename_i d last before hd
      obtain rfl := Option.some.inj h
      have hdot : d = dot := by
        have hn := List.head_dropWhile_not (· != dot) (l := name.reverse) (by simp [hd])
        simpa [hd] using hn
      refine ⟨(last :: before).reverse, ?_, by simp, ?_⟩
      · rw [hd, hdot] at he
        simpa using congrArg List.reverse he.symm
      · intro hm
        have := List.all_eq_true.mp List.all_takeWhile _ (List.mem_reverse.mp hm)
        simp at this
    · cases h
  · intro h
    obtain ⟨stem, rfl, hs, hd⟩ := h
    have hfree : ∀ b ∈ ext.reverse, (b != dot) = true := by
      intro b hb
      rw [bne_iff_ne]
      intro he
      exact hd (he ▸ List.mem_reverse.mp hb)
    obtain ⟨last, before, hr⟩ := List.exists_cons_of_ne_nil (show stem.reverse ≠ [] by simpa using hs)
    simp only [extensionOf?, List.reverse_append, List.reverse_cons, hr, List.append_assoc,
      List.singleton_append]
    rw [List.dropWhile_append_of_pos hfree, List.takeWhile_append_of_pos hfree]
    simp

namespace ExportFormat

/-- No two formats share an extension, and none of them has a dot in it. -/
theorem of_mem_extensions (f : ExportFormat) : ∀ e ∈ f.extensions,
    Path.dot ∉ Utf8.encode e ∧
      all.find? (fun g => (g.extensions.map Utf8.encode).contains (Utf8.encode e)) = some f := by
  cases f <;> decide

theorem ofExtension?_eq_some_iff {ext : Name} {f : ExportFormat} :
    ofExtension? ext = some f ↔ ∃ e ∈ f.extensions, ext.map lowerByte = Utf8.encode e := by
  constructor
  · intro h
    have hf := List.find?_some h
    simpa [List.contains_iff_mem, eq_comm] using hf
  · intro h
    obtain ⟨e, he, hx⟩ := h
    rw [ofExtension?, hx]
    exact (of_mem_extensions f e he).2

/-- The name of a path ends in a dot and an extension of the format, in any case, and does not begin
with that dot. -/
def Told (p : Path) (f : ExportFormat) : Prop :=
  ∃ stem ext e, p.fileName? = some (stem ++ Path.dot :: ext) ∧ stem ≠ [] ∧ e ∈ f.extensions ∧
    ext.map lowerByte = Utf8.encode e

theorem ofPath?_eq_some_iff {p : Path} {f : ExportFormat} : ofPath? p = some f ↔ Told p f := by
  simp only [ofPath?, Path.extension?, Option.bind_eq_some_iff, Path.extensionOf?_eq_some_iff,
    ofExtension?_eq_some_iff]
  constructor
  · intro h
    obtain ⟨ext, ⟨name, hn, stem, rfl, hs, -⟩, e, he, hx⟩ := h
    exact ⟨stem, ext, e, hn, hs, he, hx⟩
  · intro h
    obtain ⟨stem, ext, e, hn, hs, he, hx⟩ := h
    have hd : Path.dot ∉ ext := by
      intro hm
      have hl : Path.dot ∈ ext.map lowerByte := List.mem_map.mpr ⟨_, hm, rfl⟩
      exact (of_mem_extensions f e he).1 (hx ▸ hl)
    exact ⟨ext, ⟨_, hn, stem, rfl, hs, hd⟩, e, he, hx⟩

end ExportFormat

namespace ExportTarget

variable {p : Path}

/-- The end that a name gets when it tells no format. -/
def pngEnd : Name :=
  Path.dot :: Utf8.encode "png"

theorem ofPath_of_told {f : ExportFormat} (h : ExportFormat.Told p f) : ofPath p = ⟨p, f⟩ := by
  rw [ofPath, ExportFormat.ofPath?_eq_some_iff.mpr h]

theorem ofPath_of_untold (h : ∀ f, ¬ ExportFormat.Told p f) :
    ofPath p = ⟨p.withFileName (p.fileName?.getD [] ++ pngEnd), .png⟩ := by
  have hn : ExportFormat.ofPath? p = none := by
    rw [Option.eq_none_iff_forall_ne_some]
    exact fun f hf => h f (ExportFormat.ofPath?_eq_some_iff.mp hf)
  rw [ofPath, hn]
  rfl

/-- A name with the new end is a name that a path can end in. -/
theorem name_pngEnd {name : Name} (hn : Path.slash ∉ name) :
    Path.slash ∉ name ++ pngEnd ∧ Path.isIdle (name ++ pngEnd) = false ∧
      name ++ pngEnd ≠ Path.above := by
  have hl : (name ++ pngEnd).length = name.length + 4 := by
    rw [List.length_append]
    rfl
  have hlong {other : Name} (h : other.length < 4) : name ++ pngEnd ≠ other := by
    intro he
    rw [he] at hl
    omega
  refine ⟨?_, ?_, hlong (by decide)⟩
  · rw [List.mem_append, not_or]
    exact ⟨hn, by decide⟩
  · simp only [Path.isIdle, Bool.or_eq_false_iff, beq_eq_false_iff_ne]
    exact ⟨hlong (by decide), hlong (by decide)⟩

/-- With a last name, the target has that name with the new end, in the same place. -/
theorem ofPath_of_some {name : Name} (h : ∀ f, ¬ ExportFormat.Told p f)
    (hn : p.fileName? = some name) :
    (ofPath p).path.fileName? = some (name ++ pngEnd) ∧ (ofPath p).path.parent? = p.parent? := by
  obtain ⟨hs, hi, ha⟩ := name_pngEnd (Path.of_fileName? hn).1
  rw [ofPath_of_untold h, hn]
  exact Path.withFileName_of_some hn hs hi ha

/-- Without a last name, the new end becomes the name, and the path is what it stands in. -/
theorem ofPath_of_none (h : p.fileName? = none) :
    ofPath p = ⟨p.join pngEnd, .png⟩ ∧ (p.join pngEnd).fileName? = some pngEnd ∧
      (p.join pngEnd).parent? = some (Path.ofPieces p.isRooted p.body) := by
  obtain ⟨hs, hi, ha⟩ := @name_pngEnd [] List.not_mem_nil
  obtain ⟨hj, hq⟩ := Path.fileName?_join hs hi ha p
  refine ⟨?_, hj, hq⟩
  rw [ofPath_of_untold, h, Path.withFileName_of_none h]
  · rfl
  · intro f ht
    obtain ⟨stem, ext, e, hf, -⟩ := ht
    rw [h] at hf
    cases hf

theorem told_ofPath_of_some {name : Name} (hn : p.fileName? = some name) :
    ExportFormat.Told (ofPath p).path (ofPath p).format := by
  by_cases h : ∃ f, ExportFormat.Told p f
  · obtain ⟨f, hf⟩ := h
    rwa [ofPath_of_told hf]
  · rw [not_exists] at h
    have hne : name ≠ [] := by
      intro he
      subst he
      cases (Path.of_fileName? hn).2.1
    obtain ⟨ht, -⟩ := ofPath_of_some h hn
    have hf : (ofPath p).format = .png := by rw [ofPath_of_untold h]
    rw [hf]
    exact ⟨name, Utf8.encode "png", "png", ht, hne, by decide, by decide⟩

/-- The new end alone begins with its dot, so it tells no format. -/
theorem ofPath?_ofPath_of_none (h : p.fileName? = none) :
    ExportFormat.ofPath? (ofPath p).path = none := by
  obtain ⟨hp, hj, -⟩ := ofPath_of_none h
  rw [hp, ExportFormat.ofPath?, Path.extension?, hj]
  rfl

/-- A path that tells a format is the target itself. Any other gets the new end: after its last name,
in the same place, or as a name within it. The target tells its format just if the path has a last
name, and then it is its own target. -/
theorem target_of_chosen (p : Path) :
    (∀ f, ExportFormat.Told p f → ofPath p = ⟨p, f⟩) ∧
    ((∀ f, ¬ ExportFormat.Told p f) →
      (ofPath p).format = .png ∧
      (∀ name, p.fileName? = some name →
        (ofPath p).path.fileName? = some (name ++ pngEnd) ∧
          (ofPath p).path.parent? = p.parent?) ∧
      (p.fileName? = none →
        (ofPath p).path.bytes = p.bytes ++
            (if p.bytes = [] ∨ p.bytes.getLast? = some Path.slash then [] else [Path.slash]) ++
            pngEnd ∧
          (ofPath p).path.fileName? = some pngEnd ∧
          (ofPath p).path.parent? = some (Path.ofPieces p.isRooted p.body))) ∧
    (ExportFormat.ofPath? (ofPath p).path = some (ofPath p).format ↔ p.fileName?.isSome) ∧
    (p.fileName?.isSome → ofPath (ofPath p).path = ofPath p) := by
  refine ⟨fun f => ofPath_of_told, fun h => ⟨?_, fun name => ofPath_of_some h, fun hn => ?_⟩, ?_, ?_⟩
  · rw [ofPath_of_untold h]
  · obtain ⟨hp, hj, hq⟩ := ofPath_of_none hn
    rw [hp]
    refine ⟨?_, hj, hq⟩
    rw [Path.join, if_neg (by decide)]
    split <;> simp
  · cases hn : p.fileName? with
    | none => simp [ofPath?_ofPath_of_none hn]
    | some name => simpa using ExportFormat.ofPath?_eq_some_iff.mpr (told_ofPath_of_some hn)
  · rw [Option.isSome_iff_exists]
    intro h
    obtain ⟨name, hn⟩ := h
    exact ofPath_of_told (told_ofPath_of_some hn)

/-- A second dot and idle pieces: `charts//run.v2/.` is saved beside it as `charts/run.v2.png`. -/
theorem target_of_chosen_version :
    let p := Path.ofString "charts//run.v2/."
    let name := Utf8.encode "run.v2"
    (∀ f, ¬ ExportFormat.Told p f) ∧ p.fileName? = some name ∧
      (ofPath p).path.fileName? = some (name ++ pngEnd) ∧
      (ofPath p).path.parent? = some (.ofString "charts") ∧
      ofPath (ofPath p).path = ofPath p := by
  intro p name
  have hn : p.fileName? = some name := by decide
  have hu : ∀ f, ¬ ExportFormat.Told p f := by
    intro f hf
    rw [← ExportFormat.ofPath?_eq_some_iff, show ExportFormat.ofPath? p = none by decide] at hf
    cases hf
  obtain ⟨-, h, -, hi⟩ := target_of_chosen p
  obtain ⟨hf, hp⟩ := (h hu).2.1 name hn
  exact ⟨hu, hn, hf, hp.trans (by decide), hi (by rw [hn]; rfl)⟩

end ExportTarget

end TraceViewer
