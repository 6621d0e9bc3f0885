import TraceViewer.Text.Utf8

namespace TraceViewer

def hexValue (b : UInt8) : Option UInt8 :=
  if 0x30 ≤ b ∧ b ≤ 0x39 then some (b - 0x30)
  else if 0x41 ≤ b ∧ b ≤ 0x46 then some (b - 0x37)
  else if 0x61 ≤ b ∧ b ≤ 0x66 then some (b - 0x57)
  else none

/-- Replaces each `%` with two hexadecimal digits by their byte; any other `%` stays. -/
def percentDecode : List UInt8 → List UInt8
  | [] => []
  | 0x25 :: a :: b :: rest =>
    match hexValue a, hexValue b with
    | some x, some y => (x * 16 + y) :: percentDecode rest
    | _, _ => 0x25 :: percentDecode (a :: b :: rest)
  | c :: rest => c :: percentDecode rest

/-- Key and value pairs written as `key=value` joined by `&`, as in a submitted form. -/
abbrev FormPairs := List (String × String)

namespace FormPairs

/-- One side of a pair: a plus sign stands for a space, percent escapes for bytes. -/
def decodeSide (bytes : List UInt8) : String :=
  Utf8.decodeLossy (percentDecode (bytes.map fun b => if b = 0x2B then 0x20 else b))

/-- A piece split at its first equals sign; without one it is a key with an empty value. -/
def ofPiece (piece : List UInt8) : String × String :=
  (decodeSide (piece.takeWhile (· != 0x3D)), decodeSide ((piece.dropWhile (· != 0x3D)).drop 1))

/-- The pairs of a form text; empty pieces between ampersands are no pairs. -/
def ofBytes (bytes : List UInt8) : FormPairs :=
  ((bytes.splitOn 0x26).filter (· != [])).map ofPiece

/-- A text with each plus sign percent-escaped, so that it survives form decoding. -/
def escapePlus (s : String) : String :=
  String.ofList (s.toList.flatMap fun c => if c = '+' then ['%', '2', 'B'] else [c])

/-- The pairs of a text in which a plus sign stands for itself. -/
def ofText (s : String) : FormPairs :=
  ofBytes (Utf8.encode (escapePlus s))

/-- The value of the first pair with this key, when it is not empty. -/
def value? (pairs : FormPairs) (key : String) : Option String :=
  (pairs.lookup key).filter (· != "")

end FormPairs

end TraceViewer
