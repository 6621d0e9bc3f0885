import TraceViewer.Text.FormPairs

namespace TraceViewer

/-- The hexadecimal digit of a value below sixteen, in either case. -/
def hexDigit (upper : Bool) (n : Nat) : Char :=
  Char.ofNat (if n < 10 then 0x30 + n else if upper then 0x37 + n else 0x57 + n)

/-- The percent escapes of some bytes, each digit in the case chosen for its place. -/
def escapes (upper : Nat → Bool) : List UInt8 → List Char
  | [] => []
  | b :: rest =>
    '%' :: hexDigit (upper 0) (b.toNat / 16) :: hexDigit (upper 1) (b.toNat % 16) ::
      escapes (fun k => upper (k + 2)) rest

/-- A character of a key or a value, as it is written in a form: escaped, with a case for each digit,
or as it is. What takes a pair apart is never written as it is. -/
structure Letter where
  char : Char
  escaped : Option (Nat → Bool)
  plain : escaped = none → char ≠ '%' ∧ char ≠ '&' ∧ char ≠ '='

def Letter.written (l : Letter) : List Char :=
  match l.escaped with
  | some upper => escapes upper (String.utf8EncodeChar l.char)
  | none => [l.char]

def Letter.ofChar (c : Char) : Letter where
  char := c
  escaped := some fun _ => true
  plain := nofun

/-- The bytes of a character once its plus signs are escaped. -/
def plusEscaped (c : Char) : List UInt8 :=
  if c = '+' then [0x25, 0x32, 0x42] else String.utf8EncodeChar c

theorem encode_escapePlus (s : String) :
    Utf8.encode (FormPairs.escapePlus s) = s.toList.flatMap plusEscaped := by
  simp only [Utf8.encode, FormPairs.escapePlus, String.toList_ofList, List.flatMap_assoc]
  congr 1
  funext c
  unfold plusEscaped
  split
  · rfl
  · simp

theorem hexDigit_bytes : ∀ (upper : Bool) (n : Fin 16),
    plusEscaped (hexDigit upper n) = [UInt8.ofNat (hexDigit upper n).toNat] ∧
    hexValue (UInt8.ofNat (hexDigit upper n).toNat) = some (UInt8.ofNat n) ∧
    UInt8.ofNat (hexDigit upper n).toNat ≠ 0x26 ∧ UInt8.ofNat (hexDigit upper n).toNat ≠ 0x3D ∧
    UInt8.ofNat (hexDigit upper n).toNat ≠ 0x2B := by
  decide

/-- A byte below 128 is the whole of its character. -/
theorem eq_of_mem_utf8EncodeChar {c : Char} {b : UInt8} (h : b ∈ String.utf8EncodeChar c)
    (hb : b.toNat < 128) : c = Char.ofNat b.toNat := by
  have hc : Char.ofNat c.val.toNat = c := Char.ofNat_toNat c
  have high (n : Nat) (hl : 128 ≤ n) (hh : n < 256) : b ≠ UInt8.ofNat n := by
    rintro rfl
    rw [Utf8.toNat_byte hh] at hb
    omega
  simp only [String.utf8EncodeChar] at h
  split at h
  · rw [List.mem_singleton.mp h, Utf8.toNat_byte (by omega), hc]
  -- in a longer sequence every byte is marked by a bit of 128
  exfalso
  split at h
  · simp only [List.mem_cons, List.not_mem_nil, or_false] at h
    obtain h | h := h <;> exact high _ (by omega) (by omega) h
  split at h
  · simp only [List.mem_cons, List.not_mem_nil, or_false] at h
    obtain h | h | h := h <;> exact high _ (by omega) (by omega) h
  · simp only [List.mem_cons, List.not_mem_nil, or_false] at h
    obtain h | h | h | h := h <;> exact high _ (by omega) (by omega) h

theorem ne_of_mem_utf8EncodeChar {c d : Char} {b : UInt8} (h : b ∈ String.utf8EncodeChar c)
    (hd : d.toNat < 128) (hc : c ≠ d) : b ≠ UInt8.ofNat d.toNat := by
  rintro rfl
  have hb : (UInt8.ofNat d.toNat).toNat = d.toNat := Utf8.toNat_byte (by omega)
  have he := eq_of_mem_utf8EncodeChar h (by rwa [hb])
  rw [hb] at he
  exact hc (he.trans (Char.ofNat_toNat d))

theorem percentDecode_of_ne {b : UInt8} (hb : b ≠ 0x25) (rest : List UInt8) :
    percentDecode (b :: rest) = b :: percentDecode rest :=
  percentDecode.eq_3 _ _ fun _ _ _ h => absurd h hb

theorem percentDecode_append_of_not_mem {bs : List UInt8} (h : 0x25 ∉ bs) (rest : List UInt8) :
    percentDecode (bs ++ rest) = bs ++ percentDecode rest := by
  induction bs with
  | nil => rfl
  | cons b bs ih =>
    rw [List.mem_cons, not_or] at h
    rw [List.cons_append, percentDecode_of_ne (Ne.symm h.1), ih h.2]
    rfl

namespace FormPairs

theorem decodeSide_of_not_mem {bytes : List UInt8} (h : 0x2B ∉ bytes) :
    decodeSide bytes = Utf8.decodeLossy (percentDecode bytes) := by
  have hb : bytes.map (fun b => if b = 0x2B then 0x20 else b) = bytes :=
    (List.map_congr_left fun b hb => if_neg (ne_of_mem_of_not_mem hb h)).trans (List.map_id' bytes)
  rw [decodeSide, hb]

/-- Bytes that part neither pairs nor sides, and are read back as others whatever follows them. -/
structure ReadAs (bytes as : List UInt8) : Prop where
  free : ∀ b ∈ bytes, b ≠ 0x26 ∧ b ≠ 0x3D ∧ b ≠ 0x2B
  read (rest : List UInt8) : percentDecode (bytes ++ rest) = as ++ percentDecode rest

namespace ReadAs

theorem nil : ReadAs [] [] := ⟨nofun, fun _ => rfl⟩

theorem append {bytes as bytes' as' : List UInt8} (h : ReadAs bytes as) (h' : ReadAs bytes' as') :
    ReadAs (bytes ++ bytes') (as ++ as') where
  free b hb := (List.mem_append.mp hb).elim (h.free b) (h'.free b)
  read rest := by rw [List.append_assoc, h.read, h'.read, List.append_assoc]

theorem flatMap {α : Type} {bytes as : α → List UInt8} (h : ∀ x, ReadAs (bytes x) (as x))
    (xs : List α) : ReadAs (xs.flatMap bytes) (xs.flatMap as) := by
  induction xs with
  | nil => exact nil
  | cons x xs ih => exact (h x).append ih

theorem plain {bytes : List UInt8}
    (h : ∀ b ∈ bytes, b ≠ 0x25 ∧ b ≠ 0x26 ∧ b ≠ 0x3D ∧ b ≠ 0x2B) : ReadAs bytes bytes where
  free b hb := (h b hb).2
  read rest := percentDecode_append_of_not_mem (fun hb => (h _ hb).1 rfl) rest

theorem escape (u v : Bool) (b : UInt8) :
    ReadAs (['%', hexDigit u (b.toNat / 16), hexDigit v (b.toNat % 16)].flatMap plusEscaped)
      [b] := by
  have hb := b.toNat_lt
  obtain ⟨hd, hx, hf⟩ := hexDigit_bytes u ⟨b.toNat / 16, by omega⟩
  obtain ⟨hd', hy, hf'⟩ := hexDigit_bytes v ⟨b.toNat % 16, by omega⟩
  have hw : UInt8.ofNat (b.toNat / 16) * 16 + UInt8.ofNat (b.toNat % 16) = b := by
    apply UInt8.toNat_inj.mp
    simp only [UInt8.toNat_add, UInt8.toNat_mul, UInt8.toNat_ofNat', UInt8.reduceToNat]
    omega
  simp only [List.flatMap_cons, List.flatMap_nil, hd, hd', List.append_nil,
    show plusEscaped '%' = [0x25] from rfl]
  constructor
  · simp only [List.cons_append, List.nil_append, List.forall_mem_cons, List.not_mem_nil]
    exact ⟨by decide, hf, hf', nofun⟩
  · intro rest
    simp only [List.cons_append, List.nil_append, percentDecode, hx, hy, hw]

theorem escapes (upper : Nat → Bool) (bytes : List UInt8) :
    ReadAs ((TraceViewer.escapes upper bytes).flatMap plusEscaped) bytes := by
  induction bytes generalizing upper with
  | nil => exact nil
  | cons b rest ih =>
    have h := (escape (upper 0) (upper 1) b).append (ih fun k => upper (k + 2))
    rwa [← List.flatMap_append] at h

/-- A plus sign is escaped first, so it stands for itself. -/
theorem written (l : Letter) :
    ReadAs (l.written.flatMap plusEscaped) (String.utf8EncodeChar l.char) := by
  obtain ⟨c, _ | upper, hp⟩ := l
  · obtain ⟨h25, h26, h3D⟩ := hp rfl
    simp only [Letter.written, List.flatMap_singleton, plusEscaped]
    split
    · next h2B =>
      subst h2B
      exact escape true true 0x2B
    · next h2B =>
      apply plain
      intro b hb
      exact ⟨ne_of_mem_utf8EncodeChar hb (by decide) h25,
        ne_of_mem_utf8EncodeChar hb (by decide) h26, ne_of_mem_utf8EncodeChar hb (by decide) h3D,
        ne_of_mem_utf8EncodeChar hb (by decide) h2B⟩
  · exact escapes upper _

end ReadAs

theorem decodeSide_of_readAs {bytes : List UInt8} {s : String}
    (h : ReadAs bytes (Utf8.encode s)) : decodeSide bytes = s := by
  have hread := h.read []
  rw [List.append_nil, percentDecode, List.append_nil] at hread
  rw [decodeSide_of_not_mem fun hb => (h.free _ hb).2.2 rfl, hread, Utf8.decodeLossy_encode]

theorem ofPiece_of_readAs {key value : List UInt8} {k v : String}
    (hk : ReadAs key (Utf8.encode k)) (hv : ReadAs value (Utf8.encode v)) :
    ofPiece (key ++ 0x3D :: value) = (k, v) := by
  have hfree : ∀ b ∈ key, (b != 0x3D) = true := fun b hb => by simp [(hk.free b hb).2.1]
  rw [ofPiece, List.takeWhile_append_of_pos hfree, List.dropWhile_append_of_pos hfree]
  simp only [List.takeWhile_cons, List.dropWhile_cons, bne_self_eq_false, Bool.false_eq_true,
    if_false, List.append_nil, List.drop_one, List.tail_cons]
  rw [decodeSide_of_readAs hk, decodeSide_of_readAs hv]

end FormPairs

def spelled (letters : List Letter) : String :=
  String.ofList (letters.map Letter.char)

/-- A pair as it is written in a form. -/
structure WrittenPair where
  key : List Letter
  value : List Letter

namespace WrittenPair

def written (p : WrittenPair) : List Char :=
  p.key.flatMap Letter.written ++ '=' :: p.value.flatMap Letter.written

def pair (p : WrittenPair) : String × String :=
  (spelled p.key, spelled p.value)

end WrittenPair

/-- What stands between the ampersands of a form: a pair or, where two of them meet, nothing. -/
abbrev Form := List (Option WrittenPair)

namespace Form

def piece : Option WrittenPair → List Char
  | some p => p.written
  | none => []

def text (form : Form) : String :=
  String.ofList (['&'].intercalate (form.map piece))

def pairs (form : Form) : FormPairs :=
  form.filterMap fun piece => piece.map WrittenPair.pair

/-- Every list of pairs has a form. -/
theorem exists_pairs_eq (pairs : FormPairs) : ∃ form : Form, form.pairs = pairs := by
  have hs (s : String) : spelled (s.toList.map Letter.ofChar) = s := by
    simp [spelled, Function.comp_def, Letter.ofChar]
  induction pairs with
  | nil => exact ⟨[], rfl⟩
  | cons p pairs ih =>
    obtain ⟨form, rfl⟩ := ih
    refine ⟨some ⟨p.1.toList.map .ofChar, p.2.toList.map .ofChar⟩ :: form, ?_⟩
    simp [Form.pairs, WrittenPair.pair, hs]

end Form

theorem flatMap_intercalate {α β : Type} (f : α → List β) (sep : List α) (ls : List (List α)) :
    (sep.intercalate ls).flatMap f = (sep.flatMap f).intercalate (ls.map (List.flatMap f)) := by
  induction ls with
  | nil => rfl
  | cons l ls ih =>
    cases ls with
    | nil => simp [List.intercalate_singleton]
    | cons l' ls =>
      simp only [List.intercalate_cons_cons, List.flatMap_append, List.map_cons] at ih ⊢
      rw [ih]

namespace FormPairs

theorem ReadAs.spelled (letters : List Letter) :
    ReadAs ((letters.flatMap Letter.written).flatMap plusEscaped)
      (Utf8.encode (TraceViewer.spelled letters)) := by
  have h := ReadAs.flatMap ReadAs.written letters
  rw [← List.flatMap_assoc] at h
  simpa [Utf8.encode, TraceViewer.spelled, List.flatMap_map] using h

theorem flatMap_written (p : WrittenPair) :
    p.written.flatMap plusEscaped = (p.key.flatMap Letter.written).flatMap plusEscaped ++
      0x3D :: (p.value.flatMap Letter.written).flatMap plusEscaped := by
  rw [WrittenPair.written, List.flatMap_append, List.flatMap_cons]
  rfl

theorem not_mem_flatMap_piece (piece : Option WrittenPair) :
    (0x26 : UInt8) ∉ (Form.piece piece).flatMap plusEscaped := by
  obtain _ | p := piece
  · exact List.not_mem_nil
  · rw [Form.piece, flatMap_written, List.mem_append, List.mem_cons]
    rintro (hk | he | hv)
    · exact ((ReadAs.spelled p.key).free _ hk).1 rfl
    · exact absurd he (by decide)
    · exact ((ReadAs.spelled p.value).free _ hv).1 rfl

theorem ofPiece_written (p : WrittenPair) : ofPiece (p.written.flatMap plusEscaped) = p.pair := by
  rw [flatMap_written]
  exact ofPiece_of_readAs (ReadAs.spelled p.key) (ReadAs.spelled p.value)

theorem pairs_of_pieces (form : Form) :
    ((form.map fun piece => (Form.piece piece).flatMap plusEscaped).filter (· != [])).map ofPiece =
      form.pairs := by
  induction form with
  | nil => rfl
  | cons piece form ih =>
    obtain _ | p := piece
    · exact ih
    · have hp : (p.written.flatMap plusEscaped != []) = true := by simp [flatMap_written]
      rw [List.map_cons, Form.piece, List.filter_cons_of_pos (p := (· != [])) hp, List.map_cons,
        ofPiece_written, ih]
      rfl

/-- A form is read back as the pairs written in it, however they are written. -/
theorem ofText_text (form : Form) : ofText form.text = form.pairs := by
  have hsep : ['&'].flatMap plusEscaped = [0x26] := rfl
  rw [ofText, encode_escapePlus, Form.text, String.toList_ofList, flatMap_intercalate, hsep, ofBytes,
    List.map_map]
  obtain rfl | hform := Decidable.em (form = [])
  · rfl
  rw [List.splitOn_intercalate]
  · exact pairs_of_pieces form
  · intro bytes hb
    obtain ⟨piece, -, rfl⟩ := List.mem_map.mp hb
    exact not_mem_flatMap_piece piece
  · simpa using hform

end FormPairs

end TraceViewer
