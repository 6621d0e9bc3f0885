namespace TraceViewer.Utf8

def encode (s : String) : List UInt8 :=
  s.toList.flatMap String.utf8EncodeChar

/-- A sequence begun and not yet complete: its bits so far, the number of bytes that follow the
next one, and the bounds of the next one. -/
structure Begun where
  bits : Nat
  later : Nat
  low : Nat
  high : Nat
deriving DecidableEq

inductive Lead where
  | char (c : Char)
  | begun (b : Begun)
  | invalid

/-- The second byte is bounded so that no short form, surrogate or number past U+10FFFF arises. -/
def lead (b : UInt8) : Lead :=
  let n := b.toNat
  if n < 0x80 then .char (Char.ofNat n)
  else if n < 0xC2 then .invalid
  else if n < 0xE0 then .begun ⟨n - 0xC0, 0, 0x80, 0xBF⟩
  else if n < 0xF0 then
    .begun ⟨n - 0xE0, 1, if n = 0xE0 then 0xA0 else 0x80, if n = 0xED then 0x9F else 0xBF⟩
  else if n < 0xF5 then
    .begun ⟨n - 0xF0, 2, if n = 0xF0 then 0x90 else 0x80, if n = 0xF4 then 0x8F else 0xBF⟩
  else .invalid

def first (b : UInt8) : List (Option Char) × Option Begun :=
  match lead b with
  | .char c => ([some c], none)
  | .begun s => ([], some s)
  | .invalid => ([none], none)

/-- Reads one byte: the characters and invalid parts that it completes, and what is begun after it.
A byte that cannot continue a sequence ends it as an invalid part and is read again as a first byte. -/
def step : Option Begun → UInt8 → List (Option Char) × Option Begun
  | none, b => first b
  | some s, b =>
    if s.low ≤ b.toNat ∧ b.toNat ≤ s.high then
      let bits := s.bits * 64 + (b.toNat - 0x80)
      match s.later with
      | 0 => ([some (Char.ofNat bits)], none)
      | later + 1 => ([], some ⟨bits, later, 0x80, 0xBF⟩)
    else
      (none :: (first b).1, (first b).2)

/-- The characters of a byte text, with `none` for each maximal invalid part. -/
def parts : Option Begun → List UInt8 → List (Option Char)
  | none, [] => []
  | some _, [] => [none]
  | s, b :: rest => (step s b).1 ++ parts (step s b).2 rest

/-- Reads bytes as UTF-8, with U+FFFD for each maximal invalid part. -/
def decodeLossy (bytes : List UInt8) : String :=
  String.ofList ((parts none bytes).map (·.getD '\uFFFD'))

def decode? (bytes : List UInt8) : Option String :=
  ((parts none bytes).mapM id).map String.ofList

theorem toNat_byte {n : Nat} (h : n < 256) : (UInt8.ofNat n).toNat = n := by
  simp [UInt8.toNat_ofNat', Nat.mod_eq_of_lt h]

/-- A byte within the bounds completes a sequence of which only it was missing. -/
theorem parts_last {bits low high n : Nat} (hn : n < 64) (hl : low ≤ n + 128)
    (hh : n + 128 ≤ high) (rest : List UInt8) :
    parts (some ⟨bits, 0, low, high⟩) (UInt8.ofNat (n + 128) :: rest) =
      some (Char.ofNat (bits * 64 + n)) :: parts none rest := by
  have hb : (UInt8.ofNat (n + 128)).toNat = n + 128 := toNat_byte (by omega)
  generalize UInt8.ofNat (n + 128) = b at hb
  simp [parts, step, hb, hl, hh]

/-- A byte within the bounds adds its six bits to a sequence that goes on. -/
theorem parts_more {bits later low high n : Nat} (hn : n < 64) (hl : low ≤ n + 128)
    (hh : n + 128 ≤ high) (rest : List UInt8) :
    parts (some ⟨bits, later + 1, low, high⟩) (UInt8.ofNat (n + 128) :: rest) =
      parts (some ⟨bits * 64 + n, later, 0x80, 0xBF⟩) rest := by
  have hb : (UInt8.ofNat (n + 128)).toNat = n + 128 := toNat_byte (by omega)
  generalize UInt8.ofNat (n + 128) = b at hb
  simp [parts, step, hb, hl, hh]

theorem parts_begun {b : UInt8} {s : Begun} (h : lead b = .begun s) (rest : List UInt8) :
    parts none (b :: rest) = parts (some s) rest := by
  simp [parts, step, first, h]

/-- The bytes of a character are read back as that character, whatever follows. -/
theorem parts_utf8EncodeChar (c : Char) (rest : List UInt8) :
    parts none (String.utf8EncodeChar c ++ rest) = some c :: parts none rest := by
  have hc : Char.ofNat c.val.toNat = c := Char.ofNat_toNat c
  have hv : c.val.toNat.isValidChar := c.valid
  simp only [Nat.isValidChar] at hv
  generalize hn : c.val.toNat = n at hc hv
  simp only [String.utf8EncodeChar, hn]
  split
  · have hb : (UInt8.ofNat n).toNat = n := toNat_byte (by omega)
    simp [parts, step, first, lead, hb, hc, show n < 128 by omega]
  split
  · have hf : lead (UInt8.ofNat (n / 64 % 32 + 192)) = .begun ⟨n / 64, 0, 0x80, 0xBF⟩ := by
      simp only [lead, toNat_byte (show n / 64 % 32 + 192 < 256 by omega)]
      rw [if_neg (by omega), if_neg (by omega), if_pos (by omega)]
      rw [show n / 64 % 32 + 192 - 192 = n / 64 by omega]
    simp only [List.cons_append, List.nil_append]
    rw [parts_begun hf, parts_last (by omega) (by omega) (by omega),
      show n / 64 * 64 + n % 64 = n by omega, hc]
  split
  · have hf : lead (UInt8.ofNat (n / 4096 % 16 + 224)) =
        .begun ⟨n / 4096, 1, if n / 4096 = 0 then 0xA0 else 0x80,
          if n / 4096 = 13 then 0x9F else 0xBF⟩ := by
      simp only [lead, toNat_byte (show n / 4096 % 16 + 224 < 256 by omega)]
      rw [if_neg (by omega), if_neg (by omega), if_neg (by omega), if_pos (by omega)]
      simp only [Lead.begun.injEq, Begun.mk.injEq]
      refine ⟨by omega, trivial, ?_, ?_⟩ <;> (repeat' split) <;> omega
    simp only [List.cons_append, List.nil_append]
    rw [parts_begun hf, parts_more (by omega) (by split <;> omega) (by split <;> omega),
      parts_last (by omega) (by omega) (by omega),
      show (n / 4096 * 64 + n / 64 % 64) * 64 + n % 64 = n by omega, hc]
  · have hf : lead (UInt8.ofNat (n / 262144 % 8 + 240)) =
        .begun ⟨n / 262144, 2, if n / 262144 = 0 then 0x90 else 0x80,
          if n / 262144 = 4 then 0x8F else 0xBF⟩ := by
      simp only [lead, toNat_byte (show n / 262144 % 8 + 240 < 256 by omega)]
      rw [if_neg (by omega), if_neg (by omega), if_neg (by omega), if_neg (by omega),
        if_pos (by omega)]
      simp only [Lead.begun.injEq, Begun.mk.injEq]
      refine ⟨by omega, trivial, ?_, ?_⟩ <;> (repeat' split) <;> omega
    simp only [List.cons_append, List.nil_append]
    rw [parts_begun hf, parts_more (by omega) (by split <;> omega) (by split <;> omega),
      parts_more (by omega) (by omega) (by omega), parts_last (by omega) (by omega) (by omega),
      show ((n / 262144 * 64 + n / 4096 % 64) * 64 + n / 64 % 64) * 64 + n % 64 = n by omega, hc]

theorem parts_encode (s : String) : parts none (encode s) = s.toList.map some := by
  unfold encode
  induction s.toList with
  | nil => rfl
  | cons c cs ih => simp [parts_utf8EncodeChar, ih]

theorem decodeLossy_encode (s : String) : decodeLossy (encode s) = s := by
  simp [decodeLossy, parts_encode, Function.comp_def]

theorem decode?_encode (s : String) : decode? (encode s) = some s := by
  have (cs : List Char) : (cs.map some).mapM id = some cs := by
    induction cs with
    | nil => rfl
    | cons c cs ih => simp [List.mapM_cons, ih]
  simp [decode?, parts_encode, this]

end TraceViewer.Utf8
