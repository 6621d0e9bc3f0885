import TraceViewer.Text.Blank
import TraceViewer.Text.Decimal

namespace TraceViewer

/-- One frame of the field for the bin count: what the toolkit reports of it. -/
structure BinsEdit where
  changed : Bool := false
  dragging : Bool := false
  editing : Bool := false
  dragStopped : Bool := false
  lostFocus : Bool := false
deriving DecidableEq

namespace BinsEdit

/-- The bin count of a value in the field; zero leaves the count to the tracer. -/
def binCount (input : Nat) : Option Nat :=
  if input > 0 then some input else none

/-- The bin count that a frame commits. Values passed while typing or dragging are not committed,
only the one left behind. -/
def committed (e : BinsEdit) (input : Nat) : Option (Option Nat) :=
  if e.dragStopped || e.lostFocus || (e.changed && !e.dragging && !e.editing) then
    some (binCount input)
  else none

def maxBins : Nat := 2000

/-- The value that a typed text leaves in the field; what is no number leaves the old one. -/
def typed (current : Nat) (text : String) : Nat :=
  let cs := (text.toList.filter (!isBlank ·)).map fun c => if c = '\u2212' then '-' else c
  match Decimal.read? cs with
  | some n => n.clampWhole maxBins
  | none => current

end BinsEdit

end TraceViewer
