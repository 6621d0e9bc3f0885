import TraceViewer.Text.Blank

namespace TraceViewer

namespace Blank

variable {before after : List Char}

theorem trimStart_append (hb : ∀ c ∈ before, isBlank c = true) (cs : List Char) :
    trimStart (before ++ cs) = trimStart cs :=
  List.dropWhile_append_of_pos hb

/-- Blanks around some characters make no difference to what is left of them. -/
theorem trimChars_pad (hb : ∀ c ∈ before, isBlank c = true) (ha : ∀ c ∈ after, isBlank c = true)
    (cs : List Char) : trimChars (before ++ cs ++ after) = trimChars cs := by
  have he : trimStart after = [] := (dropWhile_isBlank_eq_nil_iff after).mpr ha
  have hr : ∀ c ∈ after.reverse, isBlank c = true := fun c hc => ha c (List.mem_reverse.mp hc)
  rw [trimChars, List.append_assoc, trimStart_append hb, trimChars]
  by_cases hn : trimStart cs = []
  · have ho : trimStart (cs ++ after) = trimStart after :=
      trimStart_append ((dropWhile_isBlank_eq_nil_iff cs).mp hn) after
    rw [ho, he, hn]
  · have ho : trimStart (cs ++ after) = trimStart cs ++ after := by
      rw [trimStart, List.dropWhile_append, if_neg (by simpa [trimStart] using hn), trimStart]
    rw [ho, List.reverse_append, trimStart_append hr]

/-- Only blanks are lost. -/
theorem exists_pad (cs : List Char) : ∃ before after, (∀ c ∈ before, isBlank c = true) ∧
    (∀ c ∈ after, isBlank c = true) ∧ cs = before ++ trimChars cs ++ after := by
  have hstart (ds : List Char) : ds = ds.takeWhile isBlank ++ trimStart ds :=
    List.takeWhile_append_dropWhile.symm
  have hblank (ds : List Char) : ∀ c ∈ ds.takeWhile isBlank, isBlank c = true :=
    List.all_eq_true.mp List.all_takeWhile
  refine ⟨cs.takeWhile isBlank, ((trimStart cs).reverse.takeWhile isBlank).reverse, hblank cs,
    fun c hc => hblank _ c (List.mem_reverse.mp hc), ?_⟩
  have he := congrArg List.reverse (hstart (trimStart cs).reverse)
  rw [List.reverse_reverse, List.reverse_append] at he
  rw [List.append_assoc, trimChars, ← he]
  exact hstart cs

theorem trimChars_trimChars (cs : List Char) : trimChars (trimChars cs) = trimChars cs := by
  obtain ⟨before, after, hb, ha, he⟩ := exists_pad cs
  rw [← trimChars_pad hb ha (trimChars cs), ← he]

theorem head_trimChars {c : Char} {cs ds : List Char} (h : trimChars cs = c :: ds) :
    isBlank c = false := by
  have hs : (trimStart cs).reverse.reverse = trimStart cs := List.reverse_reverse _
  rw [← List.takeWhile_append_dropWhile (p := isBlank) (l := (trimStart cs).reverse),
    List.reverse_append] at hs
  change trimChars cs ++ _ = cs.dropWhile isBlank at hs
  have hd := List.head?_dropWhile_not isBlank cs
  rw [← hs, h] at hd
  simpa using hd

theorem last_trimChars {c : Char} {cs ds : List Char} (h : trimChars cs = ds ++ [c]) :
    isBlank c = false := by
  have hr : (trimStart cs).reverse.dropWhile isBlank = c :: ds.reverse := by
    rw [← List.reverse_inj, List.reverse_cons, List.reverse_reverse]
    exact h
  have hd := List.head?_dropWhile_not isBlank (trimStart cs).reverse
  rw [hr] at hd
  simpa using hd

theorem trimChars_sublist_self (cs : List Char) : (trimChars cs).Sublist cs := by
  have h := (List.dropWhile_sublist isBlank (l := (trimStart cs).reverse)).reverse
  rw [List.reverse_reverse] at h
  exact h.trans (List.dropWhile_sublist isBlank)

/-- Characters put in anywhere leave what is trimmed a part of what is trimmed with them. -/
theorem trimChars_sublist {cs ds : List Char} (h : cs.Sublist ds) :
    (trimChars cs).Sublist (trimChars ds) := by
  obtain ⟨before, after, hb, ha, hd⟩ := exists_pad ds
  have hs : (trimChars cs).Sublist (before ++ trimChars ds ++ after) :=
    hd ▸ (trimChars_sublist_self cs).trans h
  -- neither end of the shorter one can lie in the blanks around the longer one
  rw [List.append_assoc] at hs
  obtain ⟨first, rest, he, hf, hr⟩ := List.sublist_append_iff.mp hs
  have hfirst : first = [] := by
    cases first with
    | nil => rfl
    | cons c first =>
      have hc := hb c (hf.subset List.mem_cons_self)
      rw [head_trimChars he] at hc
      cases hc
  subst hfirst
  obtain ⟨inner, last, hl, hi, hx⟩ := List.sublist_append_iff.mp hr
  have hlast : last = [] := by
    rcases List.eq_nil_or_concat last with hn | ⟨before, c, rfl⟩
    · exact hn
    · have hc := ha c (hx.subset (by simp))
      have hn : trimChars cs = (inner ++ before) ++ [c] := by
        rw [he, hl]
        simp
      rw [last_trimChars hn] at hc
      cases hc
  subst hlast
  rw [he, hl]
  simpa using hi

end Blank

theorem trimBlank_pad {before after : String} (hb : isAllBlank before = true)
    (ha : isAllBlank after = true) (s : String) :
    trimBlank (before ++ s ++ after) = trimBlank s := by
  simp only [trimBlank, String.toList_append]
  rw [Blank.trimChars_pad (List.all_eq_true.mp hb) (List.all_eq_true.mp ha)]

theorem trimBlank_trimBlank (s : String) : trimBlank (trimBlank s) = trimBlank s := by
  simp [trimBlank, Blank.trimChars_trimChars]

/-- A text is another one without the blanks around it: only blanks are lost, and none is left at
either end. -/
structure Trims (whole text : String) : Prop where
  pad : ∃ before after, isAllBlank before = true ∧ isAllBlank after = true ∧
    whole = before ++ text ++ after
  head : ∀ c ∈ text.toList.head?, isBlank c = false
  last : ∀ c ∈ text.toList.getLast?, isBlank c = false

namespace Trims

theorem trimBlank (whole : String) : Trims whole (trimBlank whole) := by
  have hl : (TraceViewer.trimBlank whole).toList = Blank.trimChars whole.toList :=
    String.toList_ofList
  refine ⟨?_, ?_, ?_⟩
  · obtain ⟨before, after, hb, ha, he⟩ := Blank.exists_pad whole.toList
    refine ⟨.ofList before, .ofList after, ?_, ?_, ?_⟩
    · simpa [isAllBlank] using hb
    · simpa [isAllBlank] using ha
    · rw [← String.toList_inj]
      simpa [hl] using he
  · intro c hc
    obtain ⟨rest, hr⟩ := List.head?_eq_some_iff.mp hc
    exact Blank.head_trimChars (hl.symm.trans hr)
  · intro c hc
    obtain ⟨rest, hr⟩ := List.getLast?_eq_some_iff.mp hc
    exact Blank.last_trimChars (hl.symm.trans hr)

theorem trimBlank_self {whole text : String} (h : Trims whole text) :
    TraceViewer.trimBlank text = text := by
  have hhead : Blank.trimStart text.toList = text.toList := by
    cases ht : text.toList with
    | nil => rfl
    | cons c rest =>
      have hc := h.head c (by rw [ht, List.head?_cons, Option.mem_some])
      rw [Blank.trimStart, List.dropWhile_cons_of_neg (by simp [hc])]
  have hlast : Blank.trimStart text.toList.reverse = text.toList.reverse := by
    cases ht : text.toList.reverse with
    | nil => rfl
    | cons c rest =>
      have hc := h.last c (by rw [List.getLast?_eq_head?_reverse, ht, List.head?_cons,
        Option.mem_some])
      rw [Blank.trimStart, List.dropWhile_cons_of_neg (by simp [hc])]
  rw [TraceViewer.trimBlank, Blank.trimChars, hhead, hlast, List.reverse_reverse,
    String.ofList_toList]

/-- Blanks around a text that has none at its ends are all that is lost of it. -/
theorem padded {before text after : String} (hb : isAllBlank before = true)
    (ha : isAllBlank after = true) (h : Trims text text) : Trims (before ++ text ++ after) text :=
  ⟨⟨before, after, hb, ha, rfl⟩, h.head, h.last⟩

end Trims

/-- There is exactly one text without the blanks around another one. -/
theorem trimBlank_eq_iff {whole text : String} : trimBlank whole = text ↔ Trims whole text := by
  constructor
  · rintro rfl
    exact .trimBlank whole
  · intro h
    obtain ⟨before, after, hb, ha, rfl⟩ := h.pad
    rw [trimBlank_pad hb ha, h.trimBlank_self]

end TraceViewer
