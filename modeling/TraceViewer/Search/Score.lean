namespace TraceViewer.Search

inductive CharClass where
  | empty
  | hardSeparator
  | softSeparator
  | digit
  | upper
  | other
deriving DecidableEq

/-- The class of a character; whatever is not ASCII belongs to words. -/
def CharClass.of (c : Char) : CharClass :=
  if c = '\x00' then .empty
  else if [' ', '/', '\\', '|', '(', ')', '[', ']', '\x7b', '\x7d'].contains c then .hardSeparator
  else if ('!' ≤ c && c ≤ '\x27') || ('*' ≤ c && c ≤ '.') || (':' ≤ c && c ≤ '@') ||
      ('^' ≤ c && c ≤ '\x60') || c == '~' then .softSeparator
  else if '0' ≤ c && c ≤ '9' then .digit
  else if 'A' ≤ c && c ≤ 'Z' then .upper
  else .other

/-- The reward for a match at the start of a word, from the class before it and its own. -/
def startBonus : CharClass → CharClass → Int
  | .empty, _ => 8
  | .hardSeparator, _ => 8
  | .softSeparator, _ => 7
  | .other, .upper => 6
  | .digit, .upper => 6
  | _, _ => 0

/-- The rewards of a text's characters, after a character of the given class. -/
def bonusesAfter : CharClass → List Char → List (Char × Int)
  | _, [] => []
  | before, c :: rest => (c, startBonus before (.of c)) :: bonusesAfter (.of c) rest

/-- The characters of a text with their rewards; the first one counts double. -/
def bonuses : List Char → List (Char × Int)
  | [] => []
  | c :: rest => (c, 2 * startBonus .empty (.of c)) :: bonusesAfter (.of c) rest

/-- A score that no match reaches. -/
def hopeless : Int := -32768

/-- The state of a match at one place: the best score of a match that ends there, the best of one
that ended before, and the reward carried on along consecutive matches. -/
structure Cell where
  ended : Int
  passed : Int
  bonus : Int
deriving DecidableEq

def Cell.blank : Cell := ⟨hopeless, hopeless, 0⟩

/-- The two rows of cells that a matcher keeps from one text to the next. -/
abbrev Matrix := Array Cell

namespace Matrix

def empty : Matrix := #[]

/-- Cuts or extends the cells to a length and keeps those that fit. -/
def resize (cells : Matrix) (size : Nat) : Matrix :=
  cells.take size ++ Array.replicate (size - cells.size) Cell.blank

def get (cells : Matrix) (i : Nat) : Cell :=
  cells.getD i Cell.blank

end Matrix

/-- How characters are compared: by themselves, or up to ASCII case. -/
def sameChar (caseSensitive : Bool) (a b : Char) : Bool :=
  if caseSensitive then a == b else a.toLower == b.toLower

/-- The places at which a pattern is first found as a subsequence of a text. -/
def firstMatches (same : Char → Char → Bool) : Nat → List Char → List Char → Option (List Nat)
  | _, _, [] => some []
  | _, [], _ :: _ => none
  | j, c :: cs, p :: ps =>
    if same c p then (firstMatches same (j + 1) cs ps).map (j :: ·)
    else firstMatches same (j + 1) cs (p :: ps)

/-- What stays fixed while one row is filled: the pattern's character, how it is compared, and where
the row and the one before it start. -/
structure Row where
  char : Char
  same : Char → Char → Bool
  start : Nat
  before : Nat

/-- Fills the cell to the right of place `j`, whose character is `c`. -/
def fillCell (row : Row) (j : Nat) (c : Char) (place : Int) (cells : Matrix) : Matrix :=
  let last := cells.get (row.start + j)
  let current := cells.get (row.start + j + 1)
  let passed := max (last.ended - 4) (last.passed - 1)
  if row.same c row.char then
    let diagonal := cells.get (row.before + j)
    let bonus := max (max last.bonus place) 4
    let ended := max (diagonal.ended + bonus) (diagonal.passed + place) +
      (if c = row.char then 16 else 14)
    (cells.setIfInBounds (row.start + j) { last with bonus := bonus }).setIfInBounds
      (row.start + j + 1) { current with ended := ended, passed := passed }
  else
    cells.setIfInBounds (row.start + j + 1) ⟨hopeless, passed, 0⟩

/-- Fills the cells of a row from place `j` on. -/
def fillRow (row : Row) : Nat → List (Char × Int) → Matrix → Matrix
  | _, [], cells => cells
  | j, (c, place) :: rest, cells => fillRow row (j + 1) rest (fillCell row j c place cells)

/-- Fills a row for each pattern character from its first match on. The two rows take turns, so
that each stands on the one before. -/
def fillRows (same : Char → Char → Bool) (cols : Nat) (text : List (Char × Int)) :
    Nat → List (Char × Nat) → Matrix → Matrix
  | _, [], cells => cells
  | i, (p, j) :: rest, cells =>
    let row : Row := ⟨p, same, (i + 1) % 2 * cols, i % 2 * cols⟩
    fillRows same cols text (i + 1) rest (fillRow row j (text.drop j) cells)

/-- Clears the first row and the cell from which the second is filled; the other cells stay. -/
def prepare (cols first : Nat) (cells : Matrix) : Matrix :=
  let sized := (cells.resize (2 * cols)).setIfInBounds (cols + first) Cell.blank
  (List.range cols).foldl (fun cells j => cells.setIfInBounds j ⟨hopeless, -1, 0⟩) sized

/-- The best score of a match that ends in one of the given cells. -/
def bestEnd (cells : Matrix) (start size : Nat) : Int :=
  (List.range size).foldl (fun best j => max best (cells.get (start + j)).ended)
    (cells.get start).ended

/-- The score of a pattern within a text, if it is a subsequence of it, and the cells left behind.
An upper-case letter in the pattern makes case matter. -/
def score (text pattern : List Char) (cells : Matrix) : Option Int × Matrix :=
  let same := sameChar (pattern.any fun c => 'A' ≤ c && c ≤ 'Z')
  match firstMatches same 0 text pattern with
  | none => (none, cells)
  | some [] => (some 0, cells)
  | some (first :: later) =>
    let cols := text.length + 1
    let filled := fillRows same cols (bonuses text) 0 (pattern.zip (first :: later))
      (prepare cols first cells)
    let last := later.getLastD first
    (some (bestEnd filled (pattern.length % 2 * cols + last) (cols - last)), filled)

/-- Scores a text, and again in lower case if the first attempt finds nothing. -/
def scoreText (text query : String) (cells : Matrix) : Option Int × Matrix :=
  match score text.toList query.toList cells with
  | (some s, cells) => (some s, cells)
  | (none, cells) => score (text.toList.map Char.toLower) (query.toList.map Char.toLower) cells

/-- Scores texts one after the other, each with the cells that the one before left behind. -/
def scoreTexts (query : String) : List String → Matrix → List (Option Int)
  | [], _ => []
  | text :: rest, cells =>
    let scored := scoreText text query cells
    scored.1 :: scoreTexts query rest scored.2

end TraceViewer.Search
