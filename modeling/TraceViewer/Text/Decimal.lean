namespace TraceViewer

inductive Decimal where
  | finite (negative : Bool) (digits : Nat) (exponent : Int)
  | infinite (negative : Bool)
  | notANumber (negative : Bool)
deriving DecidableEq

namespace Decimal

def digitValue (c : Char) : Nat :=
  c.toNat - '0'.toNat

/-- The number that some digits spell, after one already read. -/
def digitsFrom (n : Nat) (cs : List Char) : Nat :=
  cs.foldl (fun n c => n * 10 + digitValue c) n

/-- Whether a minus sign opens a text, and what follows its sign. -/
def splitSign : List Char → Bool × List Char
  | [] => (false, [])
  | c :: rest => if c = '-' then (true, rest) else (false, if c = '+' then rest else c :: rest)

/-- An exponent with its sign; without digits it is none. -/
def readExponent? (cs : List Char) : Option Int :=
  let (negative, digits) := splitSign cs
  if digits = [] ∨ !digits.all Char.isDigit then none
  else some (if negative then -(digitsFrom 0 digits : Int) else digitsFrom 0 digits)

/-- The digits after a point, if one opens the text, and what follows them. -/
def splitFraction : List Char → List Char × List Char
  | [] => ([], [])
  | c :: rest =>
    if c = '.' then (rest.takeWhile Char.isDigit, rest.dropWhile Char.isDigit) else ([], c :: rest)

/-- A number without sign, of digits with at most one point among them and maybe an exponent. -/
def readFinite? (negative : Bool) (cs : List Char) : Option Decimal := do
  let whole := cs.takeWhile Char.isDigit
  let (fraction, rest) := splitFraction (cs.dropWhile Char.isDigit)
  if whole = [] ∧ fraction = [] then none
  let exponent ←
    match rest with
    | [] => some 0
    | c :: rest => if c.toLower = 'e' then readExponent? rest else none
  some (finite negative (digitsFrom (digitsFrom 0 whole) fraction) (exponent - fraction.length))

def read? (cs : List Char) : Option Decimal :=
  let (negative, rest) := splitSign cs
  let word := String.ofList (rest.map Char.toLower)
  if word = "inf" ∨ word = "infinity" then some (infinite negative)
  else if word = "nan" then some (notANumber negative)
  else readFinite? negative rest

/-- The whole part of the double nearest to a fraction. It is the whole part of the fraction, or the
next number if that is nearer than any double below it. -/
def wholeOfNearest (numerator denominator : Nat) : Nat :=
  let whole := numerator / denominator
  let places := if whole = 0 then 54 else 53 - whole.log2
  if ((whole + 1) * denominator - numerator) * Nat.pow 2 places ≤ denominator then whole + 1
  else whole

/-- The whole part of a number held within zero and a limit below 100000. What is neither is held by
its sign. -/
def clampWhole (limit : Nat) : Decimal → Nat
  | infinite negative => if negative then 0 else limit
  | notANumber negative => if negative then 0 else limit
  | finite negative digits exponent =>
    let magnitude := (toString digits).length + exponent
    if negative ∨ digits = 0 ∨ magnitude < -20 then 0
    else if magnitude > 6 then limit
    else
      min limit
        (wholeOfNearest (digits * Nat.pow 10 exponent.toNat) (Nat.pow 10 (-exponent).toNat))

end Decimal

end TraceViewer
