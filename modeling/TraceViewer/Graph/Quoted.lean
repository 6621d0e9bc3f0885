namespace TraceViewer.Quoted

/-- Where a reader of a graph description stands. Within a value it holds the text so far. -/
inductive State where
  | outside
  | inside (text : String)
  /-- Within a value, just after a backslash. -/
  | escaped (text : String)
  /-- Within a value, just after a backslash and a carriage return. -/
  | continued (text : String)
deriving DecidableEq

/-- One character within a value: the value that it closes, if any, and what follows. -/
def insideStep (text : String) (c : Char) : Option String × State :=
  if c = '"' then (some text, .outside)
  else if c = '\\' then (none, .escaped text)
  else (none, .inside (text.push c))

/-- One character. A backslash escapes a quote and hides a line end, and stands for itself before
anything else, a second backslash included. -/
def step : State → Char → Option String × State
  | .outside, c => (none, if c = '"' then .inside "" else .outside)
  | .inside text, c => insideStep text c
  | .escaped text, c =>
    if c = '"' then (none, .inside (text.push '"'))
    else if c = '\n' then (none, .inside text)
    else if c = '\r' then (none, .continued text)
    else insideStep (text.push '\\') c
  | .continued text, c => if c = '\n' then (none, .inside text) else insideStep text c

def valuesFrom : State → List Char → List String
  | _, [] => []
  | s, c :: rest => (step s c).1.toList ++ valuesFrom (step s c).2 rest

def stateAfter (s : State) (cs : List Char) : State :=
  cs.foldl (fun s c => (step s c).2) s

/-- The quoted values of a text in order; a value left open at its end is none. -/
def values (text : String) : List String :=
  valuesFrom .outside text.toList

theorem stateAfter_append (s : State) (a b : List Char) :
    stateAfter s (a ++ b) = stateAfter (stateAfter s a) b :=
  List.foldl_append

theorem valuesFrom_append (s : State) (a b : List Char) :
    valuesFrom s (a ++ b) = valuesFrom s a ++ valuesFrom (stateAfter s a) b := by
  induction a generalizing s with
  | nil => rfl
  | cons c a ih => simp [valuesFrom, stateAfter, ih]

end TraceViewer.Quoted
