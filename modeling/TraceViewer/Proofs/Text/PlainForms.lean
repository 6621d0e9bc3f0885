import TraceViewer.Proofs.Files.Names
import TraceViewer.Proofs.Text.Forms

namespace TraceViewer

/-- The value of a hexadecimal digit, in either case. -/
def digitValue? (c : Char) : Option UInt8 :=
  if c.toNat < 128 then hexValue (UInt8.ofNat c.toNat) else none

namespace PlainForm

/-- The bytes that a text stands for. A percent sign and two hexadecimal digits are one byte; all
else is as it is written, a plus sign and any other percent sign included. -/
def bytes : List Char → List UInt8
  | [] => []
  | '%' :: c :: d :: rest =>
    match digitValue? c, digitValue? d with
    | some x, some y => (x * 16 + y) :: bytes rest
    | _, _ => 0x25 :: bytes (c :: d :: rest)
  | c :: rest => String.utf8EncodeChar c ++ bytes rest

def side (cs : List Char) : String :=
  Utf8.decodeLossy (bytes cs)

/-- A piece split at its first equals sign; without one it is a key with an empty value. -/
def pair (piece : List Char) : String × String :=
  (side (piece.takeWhile (· != '=')), side ((piece.dropWhile (· != '=')).drop 1))

/-- The pairs of a text, read in one go: no character of it is rewritten first. -/
def pairs (s : String) : FormPairs :=
  ((s.toList.splitOn '&').filter (· != [])).map pair

end PlainForm

theorem utf8EncodeChar_ascii {c : Char} (h : c.toNat < 128) :
    String.utf8EncodeChar c = [UInt8.ofNat c.toNat] := by
  have hc : c.val.toNat ≤ 127 := Nat.le_of_lt_succ h
  simp only [String.utf8EncodeChar, hc, if_true]
  rfl

theorem le_of_mem_utf8EncodeChar {c : Char} {b : UInt8} (h : b ∈ String.utf8EncodeChar c)
    (hc : ¬c.toNat < 128) : 128 ≤ b.toNat := by
  refine Nat.le_of_not_lt fun hb => hc ?_
  have hn : ∀ n < 128, (Char.ofNat n).toNat < 128 := by decide
  rw [eq_of_mem_utf8EncodeChar h hb]
  exact hn _ hb

theorem hexValue_of_le {b : UInt8} (h : 128 ≤ b.toNat) : hexValue b = none := by
  simp only [hexValue, UInt8.le_iff_toNat_le, UInt8.reduceToNat]
  rw [if_neg (by omega), if_neg (by omega), if_neg (by omega)]

theorem none_or_none {x y : Option UInt8} (h : ∀ m n, x = some m → y = some n → False) :
    x = none ∨ y = none := by
  cases x with
  | none => exact .inl rfl
  | some m => exact .inr (Option.eq_none_iff_forall_ne_some.mpr fun n hy => h m n rfl hy)

/-- A percent sign that two digits do not follow stands for itself. -/
theorem percentDecode_stray {bs : List UInt8}
    (h : ∀ a b rest, bs = a :: b :: rest → hexValue a = none ∨ hexValue b = none) :
    percentDecode (0x25 :: bs) = 0x25 :: percentDecode bs := by
  obtain _ | ⟨a, _ | ⟨b, rest⟩⟩ := bs
  · rfl
  · simp [percentDecode]
  · obtain ha | hb := h a b rest rfl
    · simp [percentDecode, ha]
    · simp [percentDecode, hb]

/-- The bytes before one that is no digit are read as they are when nothing follows them. -/
theorem percentDecode_append {b : UInt8} (hb : hexValue b = none) (as bs : List UInt8) :
    percentDecode (as ++ b :: bs) = percentDecode as ++ percentDecode (b :: bs) := by
  induction as using percentDecode.induct with
  | case1 => rfl
  | case2 a a' rest x y hx hy ih =>
    simp only [List.cons_append, percentDecode, hx, hy, ih]
  | case3 a a' rest hn ih =>
    have hs (tail : List UInt8) : ∀ c d rest', a :: a' :: rest ++ tail = c :: d :: rest' →
        hexValue c = none ∨ hexValue d = none := by
      rintro _ _ _ ⟨⟩
      exact none_or_none hn
    have hs' := hs []
    rw [List.append_nil] at hs'
    rw [percentDecode_stray hs', List.cons_append, percentDecode_stray (hs _), ih]
    rfl
  | case4 a rest hn ih =>
    rw [percentDecode.eq_3 _ _ hn, List.cons_append, List.cons_append, ← ih]
    -- after a percent sign at most one byte is left, so the one that is no digit is near enough
    obtain rfl | ha := Decidable.em (a = 0x25)
    · refine percentDecode_stray fun c d rest' hr => ?_
      obtain _ | ⟨a, _ | ⟨a', rest⟩⟩ := rest
      · cases hr
        exact .inl hb
      · cases hr
        exact .inr hb
      · exact absurd rfl (hn a a' rest rfl)
    · exact percentDecode_of_ne ha _

/-- Bytes for each character among which a text has the escapes that it had, and no others. -/
structure KeepsEscapes (enc : Char → List UInt8) : Prop where
  digit {c : Char} {x : UInt8} : digitValue? c = some x → ∃ b, enc c = [b] ∧ hexValue b = some x
  other {c : Char} : digitValue? c = none → ∃ b bs, enc c = b :: bs ∧ hexValue b = none
  percent : enc '%' = [0x25]
  read {c : Char} (rest : List UInt8) : c ≠ '%' →
    percentDecode (enc c ++ rest) = String.utf8EncodeChar c ++ percentDecode rest

namespace KeepsEscapes

theorem utf8EncodeChar : KeepsEscapes String.utf8EncodeChar where
  digit {c x} h := by
    obtain hc | hc := Decidable.em (c.toNat < 128)
    · rw [digitValue?, if_pos hc] at h
      exact ⟨_, utf8EncodeChar_ascii hc, h⟩
    · rw [digitValue?, if_neg hc] at h
      nomatch h
  other {c} h := by
    obtain hc | hc := Decidable.em (c.toNat < 128)
    · rw [digitValue?, if_pos hc] at h
      exact ⟨_, [], utf8EncodeChar_ascii hc, h⟩
    · obtain ⟨b, bs, hb⟩ := List.exists_cons_of_ne_nil (String.utf8EncodeChar_ne_nil (c := c))
      have hm : b ∈ String.utf8EncodeChar c := hb ▸ List.mem_cons_self
      exact ⟨b, bs, hb, hexValue_of_le (le_of_mem_utf8EncodeChar hm hc)⟩
  percent := rfl
  read {c} rest hc :=
    percentDecode_append_of_not_mem
      (fun h => ne_of_mem_utf8EncodeChar h (by decide : '%'.toNat < 128) hc rfl) rest

/-- An escaped plus sign begins with a percent sign, which is no digit either. -/
theorem plusEscaped : KeepsEscapes plusEscaped where
  digit {c x} h := by
    rw [TraceViewer.plusEscaped]
    split
    · next hc =>
      subst hc
      exact absurd h (by simp [show digitValue? '+' = none from rfl])
    · exact utf8EncodeChar.digit h
  other {c} h := by
    rw [TraceViewer.plusEscaped]
    split
    · exact ⟨0x25, _, rfl, rfl⟩
    · exact utf8EncodeChar.other h
  percent := rfl
  read {c} rest hc := by
    rw [TraceViewer.plusEscaped]
    split
    · next h =>
      subst h
      rfl
    · exact utf8EncodeChar.read rest hc

variable {enc : Char → List UInt8} (h : KeepsEscapes enc)
include h

theorem stray {cs : List Char}
    (hcs : ∀ c d rest, cs = c :: d :: rest → digitValue? c = none ∨ digitValue? d = none) :
    percentDecode (0x25 :: cs.flatMap enc) = 0x25 :: percentDecode (cs.flatMap enc) := by
  refine percentDecode_stray fun a a' rest' ha => ?_
  obtain _ | ⟨c, cs⟩ := cs
  · nomatch ha
  cases hc : digitValue? c with
  | none =>
    obtain ⟨b, bs, hb, hx⟩ := h.other hc
    rw [List.flatMap_cons, hb, List.cons_append, List.cons.injEq] at ha
    exact .inl (ha.1 ▸ hx)
  | some x =>
    obtain ⟨b, hb, -⟩ := h.digit hc
    obtain _ | ⟨d, rest⟩ := cs
    · rw [List.flatMap_singleton, hb] at ha
      nomatch ha
    obtain ⟨b', bs, hb', hx'⟩ := h.other ((hcs c d rest rfl).resolve_left (by simp [hc]))
    rw [List.flatMap_cons, List.flatMap_cons, hb, hb', List.singleton_append, List.cons_append,
      List.cons.injEq, List.cons.injEq] at ha
    exact .inr (ha.2.1 ▸ hx')

/-- Whatever is done to the characters that are in no escape, the same bytes are read. -/
theorem percentDecode_flatMap (cs : List Char) :
    percentDecode (cs.flatMap enc) = PlainForm.bytes cs := by
  induction cs using PlainForm.bytes.induct with
  | case1 => rfl
  | case2 c d rest x y hc hd ih =>
    obtain ⟨b, hb, hx⟩ := h.digit hc
    obtain ⟨b', hb', hy⟩ := h.digit hd
    simp only [List.flatMap_cons, h.percent, hb, hb', List.cons_append, List.nil_append,
      percentDecode, hx, hy, PlainForm.bytes, hc, hd, ih]
  | case3 c d rest hcd ih =>
    have hs : ∀ c' d' rest', c :: d :: rest = c' :: d' :: rest' →
        digitValue? c' = none ∨ digitValue? d' = none := by
      rintro _ _ _ ⟨⟩
      exact none_or_none hcd
    rw [List.flatMap_cons, h.percent, List.singleton_append, h.stray hs, ih]
    rw [PlainForm.bytes]
    split
    · next x y hc hd => exact absurd hd (hcd x y hc)
    · rfl
  | case4 c rest hne ih =>
    rw [PlainForm.bytes.eq_3 _ _ hne, List.flatMap_cons]
    -- after a percent sign at most one character is left
    obtain rfl | hc := Decidable.em (c = '%')
    · have hs : ∀ c' d' rest', rest = c' :: d' :: rest' →
          digitValue? c' = none ∨ digitValue? d' = none :=
        fun c' d' rest' hr => absurd hr (hne c' d' rest' rfl)
      rw [h.percent, List.singleton_append, h.stray hs, ih]
      rfl
    · rw [h.read _ hc, ih]

end KeepsEscapes

section Pieces

variable {f : Char → List UInt8} {a : Char} {b : UInt8} (hsep : f a = [b])
  (hfree : ∀ c, c ≠ a → b ∉ f c)

include hfree

theorem ne_of_mem_piece {c : Char} (hc : c ≠ a) : ∀ b' ∈ f c, (b' != b) = true := by
  intro b' hb'
  simpa using fun he : b' = b => hfree c hc (he ▸ hb')

theorem not_mem_flatMap {cs : List Char} (h : a ∉ cs) : b ∉ cs.flatMap f := by
  rw [List.mem_flatMap]
  rintro ⟨c, hc, hb⟩
  exact hfree c (by rintro rfl; exact h hc) hb

include hsep

theorem splitOn_flatMap (cs : List Char) :
    (cs.flatMap f).splitOn b = (cs.splitOn a).map (List.flatMap f) := by
  have hcs : cs.flatMap f = [b].intercalate ((cs.splitOn a).map (List.flatMap f)) := by
    rw [← hsep, ← List.flatMap_singleton f a, ← flatMap_intercalate, List.intercalate_splitOn]
  rw [hcs, List.splitOn_intercalate]
  · intro bs hbs
    obtain ⟨piece, hp, rfl⟩ := List.mem_map.mp hbs
    exact not_mem_flatMap hfree (Path.not_mem_of_mem_splitOn hp)
  · simp

theorem takeWhile_flatMap (cs : List Char) :
    (cs.flatMap f).takeWhile (· != b) = (cs.takeWhile (· != a)).flatMap f := by
  induction cs with
  | nil => rfl
  | cons c cs ih =>
    obtain rfl | hc := Decidable.em (c = a)
    · simp [hsep]
    · rw [List.flatMap_cons, List.takeWhile_append_of_pos (ne_of_mem_piece hfree hc), ih,
        List.takeWhile_cons_of_pos (by simpa using hc), List.flatMap_cons]

theorem drop_dropWhile_flatMap (cs : List Char) :
    ((cs.flatMap f).dropWhile (· != b)).drop 1 = ((cs.dropWhile (· != a)).drop 1).flatMap f := by
  induction cs with
  | nil => rfl
  | cons c cs ih =>
    obtain rfl | hc := Decidable.em (c = a)
    · simp [hsep]
    · rw [List.flatMap_cons, List.dropWhile_append_of_pos (ne_of_mem_piece hfree hc), ih,
        List.dropWhile_cons_of_pos (by simpa using hc)]

end Pieces

theorem not_mem_plusEscaped {c d : Char} (hd : d.toNat < 128) (hc : c ≠ d)
    (hesc : UInt8.ofNat d.toNat ∉ plusEscaped '+') : UInt8.ofNat d.toNat ∉ plusEscaped c := by
  intro h
  obtain rfl | hp := Decidable.em (c = '+')
  · exact hesc h
  · rw [plusEscaped, if_neg hp] at h
    exact ne_of_mem_utf8EncodeChar h hd hc rfl

theorem plusEscaped_ne_nil (c : Char) : plusEscaped c ≠ [] := by
  unfold plusEscaped
  split
  · exact List.cons_ne_nil _ _
  · exact String.utf8EncodeChar_ne_nil

theorem plus_not_mem (cs : List Char) : 0x2B ∉ cs.flatMap plusEscaped := by
  rw [List.mem_flatMap]
  rintro ⟨c, -, h⟩
  obtain rfl | hc := Decidable.em (c = '+')
  · exact absurd h (by decide)
  · exact not_mem_plusEscaped (d := '+') (by decide) hc (by decide) h

namespace FormPairs

theorem decodeSide_flatMap (cs : List Char) :
    decodeSide (cs.flatMap plusEscaped) = PlainForm.side cs := by
  rw [decodeSide_of_not_mem (plus_not_mem cs), KeepsEscapes.plusEscaped.percentDecode_flatMap]
  rfl

theorem ofPiece_flatMap (piece : List Char) :
    ofPiece (piece.flatMap plusEscaped) = PlainForm.pair piece := by
  have hfree : ∀ c, c ≠ '=' → 0x3D ∉ plusEscaped c := fun c hc =>
    not_mem_plusEscaped (d := '=') (by decide) hc (by decide)
  rw [ofPiece, takeWhile_flatMap rfl hfree, drop_dropWhile_flatMap rfl hfree, decodeSide_flatMap,
    decodeSide_flatMap]
  rfl

theorem ofText_eq_pairs (s : String) : ofText s = PlainForm.pairs s := by
  have hfree : ∀ c, c ≠ '&' → 0x26 ∉ plusEscaped c := fun c hc =>
    not_mem_plusEscaped (d := '&') (by decide) hc (by decide)
  have hnil (piece : List Char) : (piece.flatMap plusEscaped != []) = (piece != []) := by
    rw [Bool.eq_iff_iff]
    cases piece <;> simp [plusEscaped_ne_nil]
  rw [ofText, encode_escapePlus, ofBytes, splitOn_flatMap rfl hfree, List.filter_map, List.map_map]
  simp only [Function.comp_def, hnil, ofPiece_flatMap]
  rfl

end FormPairs

namespace Utf8

theorem low_of_lead {b : UInt8} {s : Begun} (h : lead b = .begun s) : 0x80 ≤ s.low := by
  simp only [lead] at h
  split at h
  · cases h
  split at h
  · cases h
  split at h
  · rw [← Lead.begun.inj h]
  split at h
  · rw [← Lead.begun.inj h]
    dsimp only
    split <;> omega
  split at h
  · rw [← Lead.begun.inj h]
    dsimp only
    split <;> omega
  · cases h

theorem low_first {b : UInt8} {s : Begun} (h : (first b).2 = some s) : 0x80 ≤ s.low := by
  simp only [first] at h
  split at h
  · cases h
  · next hl => exact low_of_lead (Option.some.inj h ▸ hl)
  · cases h

/-- A sequence that is begun goes on with bytes that are no characters of their own. -/
theorem low_step {s : Option Begun} {b : UInt8} {s' : Begun} (h : (step s b).2 = some s') :
    0x80 ≤ s'.low := by
  obtain _ | s := s
  · exact low_first h
  · simp only [step] at h
    split at h
    · split at h
      · cases h
      · rw [← Option.some.inj h]
    · exact low_first h

theorem parts_append_plus {s : Option Begun} (hs : ∀ b ∈ s, 0x80 ≤ b.low) (as bs : List UInt8) :
    parts s (as ++ 0x2B :: bs) = parts s as ++ some '+' :: parts none bs := by
  induction as generalizing s with
  | nil =>
    obtain _ | b := s
    · rfl
    · have hb : ¬(b.low ≤ (0x2B : UInt8).toNat ∧ (0x2B : UInt8).toNat ≤ b.high) := by
        intro h
        exact absurd (Nat.le_trans (hs b rfl) h.1) (by decide)
      simp only [List.nil_append, parts, step, if_neg hb]
      rfl
  | cons a as ih =>
    rw [List.cons_append, parts, parts, ih fun b hb => low_step hb, List.append_assoc]

theorem decodeLossy_append_plus (as bs : List UInt8) :
    decodeLossy (as ++ 0x2B :: bs) = decodeLossy as ++ "+" ++ decodeLossy bs := by
  have hparts : parts none (as ++ 0x2B :: bs) = _ := parts_append_plus (by simp) as bs
  simp [decodeLossy, hparts, ← String.toList_inj]

end Utf8

namespace FormPairs

/-- A text is read as its plain decoding has it, pair for pair. Rewriting it makes no escape and
breaks none, and a plus sign stands for itself wherever it is. -/
theorem ofText_eq_plain (s : String) :
    ofText s = PlainForm.pairs s ∧
    percentDecode (Utf8.encode (escapePlus s)) = percentDecode (Utf8.encode s) ∧
    ∀ left right : String,
      decodeSide (Utf8.encode (escapePlus (left ++ "+" ++ right))) =
        decodeSide (Utf8.encode (escapePlus left)) ++ "+" ++
          decodeSide (Utf8.encode (escapePlus right)) := by
  refine ⟨ofText_eq_pairs s, ?_, ?_⟩
  · rw [encode_escapePlus, KeepsEscapes.plusEscaped.percentDecode_flatMap, Utf8.encode,
      KeepsEscapes.utf8EncodeChar.percentDecode_flatMap]
  · intro left right
    have hplus : (left ++ "+" ++ right).toList.flatMap plusEscaped =
        left.toList.flatMap plusEscaped ++
          0x25 :: 0x32 :: 0x42 :: right.toList.flatMap plusEscaped := by
      simp [plusEscaped]
    have hread (rest : List UInt8) :
        percentDecode (0x25 :: 0x32 :: 0x42 :: rest) = 0x2B :: percentDecode rest := rfl
    simp only [encode_escapePlus, decodeSide_of_not_mem (plus_not_mem _)]
    rw [hplus, percentDecode_append rfl, hread, Utf8.decodeLossy_append_plus]

example : ofText "a=%+41&&+%2+B" = [("a", "%+41"), ("+%2+B", "")] := by decide +kernel

end FormPairs

end TraceViewer
