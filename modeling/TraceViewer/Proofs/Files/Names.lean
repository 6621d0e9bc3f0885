import Mathlib.Data.List.DropRight
import TraceViewer.Files.Path

namespace TraceViewer.Path

variable {p : Path} {name : Name} {ps qs : List Name}

/-- What a path opens with: a slash if it starts at the root. -/
def root (rooted : Bool) : List UInt8 :=
  if rooted then [slash] else []

theorem pieces_of_root (rooted : Bool) (rest : List UInt8)
    (h : rooted = false → rest.head? ≠ some slash) :
    (⟨root rooted ++ rest⟩ : Path).isRooted = rooted ∧
      (⟨root rooted ++ rest⟩ : Path).pieces = rest.splitOn slash := by
  cases rooted with
  | true => simp [root, isRooted, pieces]
  | false =>
    have hr : (⟨rest⟩ : Path).isRooted = false := by simpa [isRooted] using h rfl
    simp [root, pieces, hr]

theorem exists_rest (p : Path) : ∃ rest, p.bytes = root p.isRooted ++ rest ∧
    (p.isRooted = false → rest.head? ≠ some slash) ∧ p.pieces = rest.splitOn slash := by
  cases hr : p.isRooted with
  | false =>
    refine ⟨p.bytes, rfl, fun _ => ?_, by simp [pieces, hr]⟩
    simpa [isRooted] using hr
  | true =>
    refine ⟨p.bytes.drop 1, ?_, nofun, by simp [pieces, hr]⟩
    have hh : p.bytes.head? = some slash := by simpa [isRooted] using hr
    obtain ⟨rest, he⟩ := List.head?_eq_some_iff.mp hh
    simp [he, root]

theorem not_mem_of_mem_splitOn {α : Type} [BEq α] [LawfulBEq α] {a : α} {as l : List α}
    (h : l ∈ as.splitOn a) : a ∉ l := by
  induction as generalizing l with
  | nil => simp_all
  | cons b as ih =>
    rw [List.splitOn_cons_eq_if_modifyHead] at h
    split at h
    · rcases List.mem_cons.mp h with rfl | h
      · exact List.not_mem_nil
      · exact ih h
    · rename_i hb
      obtain ⟨first, rest, hs⟩ := List.exists_cons_of_ne_nil (List.splitOn_ne_nil a as)
      rw [hs, List.modifyHead_cons] at h
      rcases List.mem_cons.mp h with rfl | h
      · rw [List.mem_cons, not_or]
        exact ⟨fun he => hb (beq_iff_eq.mpr he.symm), ih (hs ▸ List.mem_cons_self)⟩
      · exact ih (hs ▸ List.mem_cons_of_mem _ h)

theorem slash_not_mem_of_mem_pieces (h : name ∈ p.pieces) : slash ∉ name :=
  not_mem_of_mem_splitOn h

theorem pieces_of_name (rooted : Bool) (before : List UInt8) (hn : slash ∉ name)
    (h : rooted = false → (before ++ [slash]).head? ≠ some slash) :
    (⟨root rooted ++ (before ++ slash :: name)⟩ : Path).isRooted = rooted ∧
      (⟨root rooted ++ (before ++ slash :: name)⟩ : Path).pieces =
        before.splitOn slash ++ [name] := by
  have hd : (before ++ slash :: name).head? = (before ++ [slash]).head? := by
    cases before <;> rfl
  rw [← List.splitOn_eq_singleton hn, ← List.splitOn_append_cons_self]
  exact pieces_of_root rooted _ fun hf => hd ▸ h hf

theorem join_of_rest {rooted : Bool} {rest : List UInt8} (hp : p.bytes = root rooted ++ rest)
    (hn : slash ∉ name) :
    p.join name = ⟨root rooted ++ if rest = [] ∨ rest.getLast? = some slash then rest ++ name
      else rest ++ slash :: name⟩ := by
  have hh : name.head? ≠ some slash := fun he => hn (List.mem_of_mem_head? he)
  have hc : (p.bytes = [] ∨ p.bytes.getLast? = some slash) ↔
      (rest = [] ∨ rest.getLast? = some slash) := by
    rw [hp]
    rcases List.eq_nil_or_concat rest with rfl | ⟨before, last, rfl⟩
    · cases rooted <;> simp [root]
    · simp
  rw [join, if_neg (by simpa using hh)]
  by_cases hs : rest = [] ∨ rest.getLast? = some slash
  · rw [if_pos (hc.mpr hs), if_pos hs, hp, List.append_assoc]
  · rw [if_neg fun h => hs (hc.mp h), if_neg hs, hp, List.append_assoc]

/-- A name joined to a path is its last piece, in place of the empty one after a slash. -/
theorem pieces_join (hn : slash ∉ name) (p : Path) : (p.join name).isRooted = p.isRooted ∧
    ∃ qs, (p.join name).pieces = qs ++ [name] ∧ (p.pieces = qs ∨ p.pieces = qs ++ [[]]) := by
  obtain ⟨rest, hb, hh, hp⟩ := exists_rest p
  rw [join_of_rest hb hn, hp]
  generalize p.isRooted = rooted at hh ⊢
  rcases List.eq_nil_or_concat rest with rfl | ⟨before, last, rfl⟩
  · obtain ⟨hr, hq⟩ := pieces_of_root rooted name fun _ he => hn (List.mem_of_mem_head? he)
    refine ⟨hr, [], ?_, .inr (List.splitOn_nil slash)⟩
    exact hq.trans (List.splitOn_eq_singleton hn)
  by_cases hl : last = slash
  · subst hl
    obtain ⟨hr, hq⟩ := pieces_of_name rooted before hn (by simpa using hh)
    refine ⟨by simpa using hr, before.splitOn slash, by simpa using hq, .inr ?_⟩
    rw [List.concat_eq_append, List.splitOn_append_cons_self, List.splitOn_nil]
  · obtain ⟨hr, hq⟩ := pieces_of_name rooted (before.concat last) hn
      (by cases before <;> simpa using hh)
    rw [if_neg (by simp [hl])]
    exact ⟨hr, _, hq, .inl rfl⟩

/-- A dot that opens a path without root is kept; what is idle at the end of the rest is dropped. -/
theorem exists_lead (rooted : Bool) (h : ps ≠ []) : ∃ lead rest, ps = lead ++ rest ∧
    (lead = [] ∨ rooted = false ∧ lead = [here]) ∧
    ∀ more, settle rooted (ps ++ more) = lead ++ (rest ++ more).rdropWhile isIdle := by
  obtain ⟨first, rest, rfl⟩ := List.exists_cons_of_ne_nil h
  by_cases hf : (!rooted && first == here) = true
  · obtain ⟨hr, hh⟩ := Bool.and_eq_true_iff.mp hf
    obtain rfl := eq_of_beq hh
    exact ⟨[here], rest, rfl, .inr ⟨by simpa using hr, rfl⟩, fun more => if_pos hf⟩
  · exact ⟨[], first :: rest, rfl, .inl rfl, fun more => if_neg hf⟩

theorem exists_lead_settle (rooted : Bool) (h : ps ≠ []) : ∃ lead rest, ps = lead ++ rest ∧
    (lead = [] ∨ rooted = false ∧ lead = [here]) ∧
    settle rooted ps = lead ++ rest.rdropWhile isIdle := by
  obtain ⟨lead, rest, hp, hl, hs⟩ := exists_lead rooted h
  exact ⟨lead, rest, hp, hl, by simpa using hs []⟩

theorem settle_concat_nil (rooted : Bool) (ps : List Name) :
    settle rooted (ps ++ [[]]) = settle rooted ps := by
  by_cases h : ps = []
  · cases rooted <;> rw [h] <;> rfl
  · obtain ⟨lead, rest, -, -, hs⟩ := exists_lead rooted h
    have hn := hs []
    rw [List.append_nil, List.append_nil] at hn
    rw [hs, hn, List.rdropWhile_concat_pos isIdle rest [] rfl]

theorem settle_concat (rooted : Bool) (ps : List Name) (hn : isIdle name = false) :
    settle rooted (ps ++ [name]) = ps ++ [name] := by
  have hi : ¬ isIdle name = true := by simp [hn]
  by_cases h : ps = []
  · have hh : name ≠ here := by
      rintro rfl
      exact hi rfl
    rw [h, List.nil_append, settle, if_neg (by simp [hh])]
    exact List.rdropWhile_concat_neg isIdle [] name hi
  · obtain ⟨lead, rest, hp, -, hs⟩ := exists_lead rooted h
    rw [hs, List.rdropWhile_concat_neg isIdle rest name hi, ← List.append_assoc, ← hp]

theorem prefix_settle (rooted : Bool) (ps : List Name) : settle rooted ps <+: ps := by
  by_cases h : ps = []
  · rw [h]
    exact List.nil_prefix
  · obtain ⟨lead, rest, hp, -, hs⟩ := exists_lead_settle rooted h
    rw [hs, hp]
    exact (List.prefix_append_right_inj lead).mpr (List.rdropWhile_prefix isIdle rest)

/-- What is left ends in a piece that leads somewhere, unless it is the dot that opens a path. -/
theorem last_settle {rooted : Bool} (h : settle rooted ps = qs ++ [name]) :
    isIdle name = false ∨ rooted = false ∧ qs = [] ∧ name = here := by
  have hps : ps ≠ [] := by
    rintro rfl
    simp [settle] at h
  obtain ⟨lead, rest, -, hl, hs⟩ := exists_lead_settle rooted hps
  rw [hs] at h
  rcases List.eq_nil_or_concat (rest.rdropWhile isIdle) with hr | ⟨before, last, hr⟩
  · rw [hr, List.append_nil] at h
    rcases hl with rfl | ⟨hf, rfl⟩
    · simp at h
    · cases qs with
      | nil => exact .inr ⟨hf, rfl, (List.cons.inj h).1.symm⟩
      | cons first before => simp at h
  · have hne : rest.rdropWhile isIdle ≠ [] := by simp [hr]
    have hi := List.rdropWhile_last_not isIdle rest hne
    rw [hr, List.concat_eq_append, ← List.append_assoc] at h
    obtain ⟨-, hn⟩ := List.append_inj' h rfl
    obtain rfl := (List.cons.inj hn).1
    simp only [hr, List.concat_eq_append, List.getLast_append_singleton] at hi
    exact .inl (by simpa using hi)

theorem settle_settle (rooted : Bool) (ps : List Name) :
    settle rooted (settle rooted ps) = settle rooted ps := by
  rcases List.eq_nil_or_concat (settle rooted ps) with h | ⟨before, last, h⟩
  · rw [h]
    rfl
  · rw [List.concat_eq_append] at h
    rw [h]
    rcases last_settle h with hi | ⟨rfl, rfl, rfl⟩
    · exact settle_concat rooted before hi
    · rfl

/-- A path without root whose first piece is empty is the empty path. -/
theorem pieces_of_head_nil (hr : p.isRooted = false) (h : p.pieces.head? = some []) :
    p.pieces = [[]] := by
  obtain ⟨rest, -, hh, hp⟩ := exists_rest p
  rw [hp] at h ⊢
  cases rest with
  | nil => exact List.splitOn_nil slash
  | cons b rest =>
    have hb : (b == slash) = false := by simpa using hh hr
    obtain ⟨first, later, hs⟩ := List.exists_cons_of_ne_nil (List.splitOn_ne_nil slash rest)
    rw [List.splitOn_cons_eq_if_modifyHead, hb, hs] at h
    cases h

theorem head?_intercalate (hs : ∀ name ∈ ps, slash ∉ name) (hh : ps.head? ≠ some []) :
    ([slash].intercalate ps).head? ≠ some slash := by
  cases ps with
  | nil => simp
  | cons name rest =>
    obtain ⟨b, name, rfl⟩ := List.exists_cons_of_ne_nil (show name ≠ [] by simpa using hh)
    have hb : b ≠ slash := by
      rintro rfl
      exact hs _ List.mem_cons_self List.mem_cons_self
    cases rest <;> simp [List.intercalate_cons_cons, hb]

/-- Pieces without idle ones at the end are read back from the path that they spell. -/
theorem body_ofPieces (rooted : Bool) (hs : ∀ name ∈ ps, slash ∉ name)
    (hh : rooted = false → ps.head? ≠ some []) :
    (ofPieces rooted (settle rooted ps)).isRooted = rooted ∧
      (ofPieces rooted (settle rooted ps)).body = settle rooted ps := by
  have hp := prefix_settle rooted ps
  have hrest : rooted = false → ([slash].intercalate (settle rooted ps)).head? ≠ some slash := by
    intro hf
    refine head?_intercalate (fun name hm => hs name (hp.subset hm)) fun he => hh hf ?_
    obtain ⟨more, hm⟩ := hp
    rw [← hm, List.head?_append, he]
    rfl
  obtain ⟨hr, hq⟩ := pieces_of_root rooted _ hrest
  refine ⟨hr, ?_⟩
  change settle (ofPieces rooted _).isRooted (ofPieces rooted _).pieces = _
  rw [show (ofPieces rooted _).isRooted = rooted from hr,
    show (ofPieces rooted _).pieces = _ from hq]
  by_cases hn : settle rooted ps = []
  · rw [hn, List.intercalate_nil, List.splitOn_nil]
    exact settle_concat_nil rooted []
  · rw [List.splitOn_intercalate slash (fun name hm => hs name (hp.subset hm)) hn, settle_settle]

/-- A name that neither stays nor leads up is the last one of a path that it is joined to, and the
path is what it stands in. -/
theorem fileName?_join (hn : slash ∉ name) (hi : isIdle name = false) (ha : name ≠ above)
    (p : Path) : (p.join name).fileName? = some name ∧
      (p.join name).parent? = some (ofPieces p.isRooted p.body) := by
  obtain ⟨hr, qs, hq, hp⟩ := pieces_join hn p
  have hb : (p.join name).body = qs ++ [name] := by
    rw [body, hr, hq, settle_concat _ _ hi]
  have hs : settle p.isRooted qs = p.body := by
    rcases hp with hp | hp
    · rw [body, hp]
    · rw [body, hp, settle_concat_nil]
  have hh : name ≠ here := by
    rintro rfl
    cases hi
  constructor
  · simp [fileName?, hb, hh, ha]
  · rw [parent?, hb, if_neg (by simp), hr, List.dropLast_concat, hs]

theorem fileName?_eq_some_iff : p.fileName? = some name ↔
    p.body.getLast? = some name ∧ name ≠ here ∧ name ≠ above := by
  simp [fileName?, Option.filter_eq_some_iff]

theorem of_fileName? (h : p.fileName? = some name) :
    slash ∉ name ∧ isIdle name = false ∧ ∃ before, p.body = before ++ [name] := by
  obtain ⟨hl, hh, -⟩ := fileName?_eq_some_iff.mp h
  obtain ⟨before, hb⟩ := List.getLast?_eq_some_iff.mp hl
  refine ⟨?_, ?_, before, hb⟩
  · apply slash_not_mem_of_mem_pieces (p := p)
    exact (prefix_settle _ _).subset (List.mem_of_getLast? hl)
  · rcases last_settle hb with hi | ⟨-, -, hn⟩
    · exact hi
    · exact absurd hn hh

/-- Another last name stands in the same place. -/
theorem withFileName_of_some {old : Name} (h : p.fileName? = some old) (hn : slash ∉ name)
    (hi : isIdle name = false) (ha : name ≠ above) :
    (p.withFileName name).fileName? = some name ∧ (p.withFileName name).parent? = p.parent? := by
  obtain ⟨-, -, before, hb⟩ := of_fileName? h
  have hpre : before <+: p.pieces :=
    (List.prefix_append before [old]).trans (hb ▸ prefix_settle p.isRooted p.pieces)
  have hp : p.parent? = some (ofPieces p.isRooted (settle p.isRooted before)) := by
    rw [parent?, hb, if_neg (by simp), List.dropLast_concat]
  obtain ⟨hr, hbody⟩ := body_ofPieces p.isRooted
    (fun _ hm => slash_not_mem_of_mem_pieces (hpre.subset hm)) (by
      intro hf he
      obtain ⟨more, hm⟩ := hpre
      have hn := pieces_of_head_nil hf (by rw [← hm, List.head?_append, he]; rfl)
      rw [body, hn, hf] at hb
      simp [settle, dropIdleEnd, isIdle, here] at hb)
  rw [withFileName, h, hp]
  simp only
  obtain ⟨hj, hq⟩ := fileName?_join hn hi ha (ofPieces p.isRooted (settle p.isRooted before))
  exact ⟨hj, by rw [hq, hr, hbody]⟩

theorem withFileName_of_none (h : p.fileName? = none) (name : Name) :
    p.withFileName name = p.join name := by
  rw [withFileName, h]

end TraceViewer.Path
