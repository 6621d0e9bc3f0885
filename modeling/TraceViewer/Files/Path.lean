import TraceViewer.Text.Utf8

namespace TraceViewer

/-- One name within a path, or within a directory. -/
abbrev Name := List UInt8

/-- A path as its bytes; they need not be UTF-8. -/
structure Path where
  bytes : List UInt8
deriving DecidableEq

namespace Path

/-- The byte that separates names. -/
def slash : UInt8 := 0x2F

/-- The byte that sets off an extension. -/
def dot : UInt8 := 0x2E

def here : Name := [dot]

def above : Name := [dot, dot]

def ofString (s : String) : Path :=
  ⟨Utf8.encode s⟩

def display (p : Path) : String :=
  Utf8.decodeLossy p.bytes

def text? (p : Path) : Option String :=
  Utf8.decode? p.bytes

def isRooted (p : Path) : Bool :=
  p.bytes.head? == some slash

/-- What stands between the slashes, without the slash of the root. -/
def pieces (p : Path) : List Name :=
  (if p.isRooted then p.bytes.drop 1 else p.bytes).splitOn slash

/-- A piece that leads nowhere: an empty one or a single dot. -/
def isIdle (piece : Name) : Bool :=
  piece == [] || piece == here

/-- Drops the idle pieces at the end. -/
def dropIdleEnd (ps : List Name) : List Name :=
  (ps.reverse.dropWhile isIdle).reverse

/-- Drops the idle pieces at the end, but for a dot that opens a path without root. -/
def settle (rooted : Bool) (ps : List Name) : List Name :=
  match ps with
  | [] => []
  | first :: rest =>
    if !rooted && first == here then here :: dropIdleEnd rest else dropIdleEnd (first :: rest)

/-- The path of some pieces, spelled as they are. -/
def ofPieces (rooted : Bool) (ps : List Name) : Path :=
  ⟨(if rooted then [slash] else []) ++ [slash].intercalate ps⟩

/-- The pieces up to the last one that leads somewhere. -/
def body (p : Path) : List Name :=
  settle p.isRooted p.pieces

/-- The last name of a path; a path that ends in a dot name or at the root has none. -/
def fileName? (p : Path) : Option Name :=
  p.body.getLast?.filter fun name => name != here && name != above

/-- The path that a path's last piece stands in. -/
def parent? (p : Path) : Option Path :=
  if p.body = [] then none else some (ofPieces p.isRooted (settle p.isRooted p.body.dropLast))

/-- A name at the end of a path, separated by one slash; a rooted name replaces the path. -/
def join (p : Path) (name : List UInt8) : Path :=
  if name.head? == some slash then ⟨name⟩
  else if p.bytes = [] ∨ p.bytes.getLast? = some slash then ⟨p.bytes ++ name⟩
  else ⟨p.bytes ++ slash :: name⟩

/-- The path with another last name, or with this one added if it has none. -/
def withFileName (p : Path) (name : Name) : Path :=
  match p.fileName?, p.parent? with
  | some _, some parent => parent.join name
  | _, _ => p.join name

/-- What follows the last dot of a name, unless that dot opens it. -/
def extensionOf? (name : Name) : Option Name :=
  match name.reverse.dropWhile (· != dot) with
  | _ :: _ :: _ => some (name.reverse.takeWhile (· != dot)).reverse
  | _ => none

def extension? (p : Path) : Option Name :=
  p.fileName?.bind extensionOf?

/-- The paths above some pieces, which are given last to first. -/
def pathsAbove (rooted : Bool) : List Name → List Path
  | [] => []
  | piece :: before =>
    if isIdle piece && (rooted || !before.isEmpty) then pathsAbove rooted before
    else ofPieces rooted (settle rooted before.reverse) :: pathsAbove rooted before

/-- A path and those above it, the nearest first. -/
def ancestors (p : Path) : List Path :=
  p :: pathsAbove p.isRooted p.body.reverse

end Path

end TraceViewer
