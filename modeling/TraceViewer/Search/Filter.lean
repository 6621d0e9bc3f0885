import TraceViewer.Graph.Entry
import TraceViewer.Search.Score

namespace TraceViewer.Search

def better : Option Int → Option Int → Option Int
  | some a, some b => some (max a b)
  | some a, none => some a
  | none, b => b

/-- The score of an entry: that of its label or that of its title, whichever is greater. -/
def scoreEntry (query : String) (entry : Entry) (cells : Matrix) : Option Int × Matrix :=
  let label := scoreText entry.label query cells
  let title := scoreText entry.title query label.2
  (better label.1 title.1, title.2)

/-- A place in a list with the score of the entry there. -/
structure Hit where
  index : Nat
  score : Int
deriving DecidableEq

/-- The entries that a query finds, counted from `index` on, all scored by one matcher. -/
def hitsFrom (query : String) : Nat → List Entry → Matrix → List Hit
  | _, [], _ => []
  | index, entry :: rest, cells =>
    let scored := scoreEntry query entry cells
    let later := hitsFrom query (index + 1) rest scored.2
    match scored.1 with
    | some s => ⟨index, s⟩ :: later
    | none => later

/-- Better scores come first, and of equal scores the earlier entry. -/
def Hit.before (a b : Hit) : Bool :=
  b.score < a.score || (a.score == b.score && a.index ≤ b.index)

/-- The places of the entries that a query finds, best first; a blank query finds all in order. -/
def filter (entries : List Entry) (query : String) : List Nat :=
  let query := trimBlank query
  if query = "" then List.range entries.length
  else ((hitsFrom query 0 entries Matrix.empty).mergeSort Hit.before).map Hit.index

end TraceViewer.Search
