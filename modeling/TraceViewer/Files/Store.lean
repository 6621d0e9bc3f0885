import TraceViewer.Files.Error
import TraceViewer.Files.Path

namespace TraceViewer

/-- The names that lead from the root to a file or directory. -/
abbrev Location := List Name

inductive Node where
  | directory
  | file (content : List UInt8) (executable : Bool)
deriving DecidableEq

/-- Files and directories, and the directory from which paths without root start. The root itself
is always there. -/
structure Files where
  workingDir : Location
  nodes : List (Location × Node)

namespace Files

def node? (fs : Files) (loc : Location) : Option Node :=
  if loc = [] then some .directory else fs.nodes.lookup loc

/-- Puts a node at a location, in place of what stood there. -/
def put (fs : Files) (loc : Location) (node : Node) : Files :=
  { fs with nodes := (loc, node) :: fs.nodes.filter fun entry => entry.1 != loc }

theorem node?_put_self {loc : Location} (h : loc ≠ []) (fs : Files) (node : Node) :
    (fs.put loc node).node? loc = some node := by
  simp [node?, put, h]

theorem lookup_filter_ne (nodes : List (Location × Node)) {loc other : Location}
    (h : other ≠ loc) :
    (nodes.filter fun entry => entry.1 != loc).lookup other = nodes.lookup other := by
  induction nodes with
  | nil => rfl
  | cons entry rest ih =>
    obtain ⟨place, node⟩ := entry
    by_cases hl : place = loc
    · subst hl
      simp [List.lookup_cons, beq_false_of_ne h, ih]
    · simp [List.lookup_cons, hl, ih]

theorem node?_put_of_ne {loc other : Location} (h : other ≠ loc) (fs : Files) (node : Node) :
    (fs.put loc node).node? other = fs.node? other := by
  simp [node?, put, List.lookup_cons, beq_false_of_ne h, lookup_filter_ne fs.nodes h]

def take (fs : Files) (loc : Location) : Files :=
  { fs with nodes := fs.nodes.filter fun entry => !loc.isPrefixOf entry.1 }

def nameLimit : Nat := 255

def pathLimit : Nat := 4095

/-- Refuses what stands at a location unless it is a directory. -/
def requireDirectory (fs : Files) (loc : Location) : Except IoError Unit :=
  match fs.node? loc with
  | some .directory => .ok ()
  | some (.file ..) => .error .notADirectory
  | none => .error .notFound

/-- Follows pieces from a location. Each is looked up in an existing directory; the last one may
name what does not exist yet. -/
def follow (fs : Files) : Location → List Name → Except IoError Location
  | loc, [] => .ok loc
  | loc, piece :: rest =>
    match fs.requireDirectory loc with
    | .error e => .error e
    | .ok () =>
      if Path.isIdle piece then follow fs loc rest
      else if piece = Path.above then follow fs loc.dropLast rest
      else if piece.length > nameLimit then .error .nameTooLong
      else follow fs (loc ++ [piece]) rest

/-- Refuses a path that no system call accepts. -/
def checkPath (p : Path) : Except IoError Unit :=
  if p.bytes.contains 0 then .error .nulInPath
  else if p.bytes = [] then .error .notFound
  else if p.bytes.length > pathLimit then .error .nameTooLong
  else .ok ()

def startOf (fs : Files) (p : Path) : Location :=
  if p.isRooted then [] else fs.workingDir

/-- The location that a path leads to, whether or not something stands there. -/
def locate (fs : Files) (p : Path) : Except IoError Location := do
  checkPath p
  fs.follow (fs.startOf p) p.pieces

def find? (fs : Files) (p : Path) : Except IoError (Location × Node) := do
  let loc ← fs.locate p
  match fs.node? loc with
  | some node => .ok (loc, node)
  | none => .error .notFound

def isDirectory (fs : Files) (p : Path) : Bool :=
  match fs.find? p with
  | .ok (_, .directory) => true
  | _ => false

/-- The place for a new name: the directory, the name, and whether a slash follows it. -/
structure Place where
  directory : Location
  name : Name
  slashed : Bool

/-- Splits off the last name of a path and follows the rest to an existing directory. -/
def place (fs : Files) (p : Path) : Except IoError Place := do
  checkPath p
  let named := p.pieces.reverse.dropWhile (· == [])
  let directory ← fs.follow (fs.startOf p) (named.drop 1).reverse
  fs.requireDirectory directory
  .ok ⟨directory, named.headD [], p.pieces.getLastD [] == [] && p.pieces.length > 1⟩

/-- A name that stands for a directory already there. -/
def Place.isReserved (place : Place) : Bool :=
  Path.isIdle place.name || place.name == Path.above

def makeDirectory (fs : Files) (p : Path) : Except IoError Files := do
  let place ← fs.place p
  if place.isReserved then .error .alreadyExists
  else if place.name.length > nameLimit then .error .nameTooLong
  else
    let loc := place.directory ++ [place.name]
    match fs.node? loc with
    | some _ => .error .alreadyExists
    | none => .ok (fs.put loc .directory)

/-- Creates the first of some paths, after those above it where they are missing. What was created
before a failure stays. -/
def makeAll (fs : Files) : List Path → Except IoError Unit × Files
  | [] => (.ok (), fs)
  | p :: above =>
    if p.bytes = [] then (.ok (), fs)
    else
      match fs.makeDirectory p with
      | .ok fs => (.ok (), fs)
      | .error .notFound =>
        match fs.makeAll above with
        | (.error e, fs) => (.error e, fs)
        | (.ok (), fs) =>
          match fs.makeDirectory p with
          | .ok fs => (.ok (), fs)
          | .error e => (if fs.isDirectory p then .ok () else .error e, fs)
      | .error e => (if fs.isDirectory p then .ok () else .error e, fs)

/-- Creates a directory with all directories above it, and accepts one that is there. -/
def makeDirectories (fs : Files) (p : Path) : Except IoError Unit × Files :=
  fs.makeAll p.ancestors

/-- Opens a path for writing: the location of an emptied or a new file. -/
def create (fs : Files) (p : Path) : Except IoError (Location × Files) := do
  let place ← fs.place p
  if place.isReserved || place.slashed then .error .isADirectory
  else if place.name.length > nameLimit then .error .nameTooLong
  else
    let loc := place.directory ++ [place.name]
    match fs.node? loc with
    | some .directory => .error .isADirectory
    | some (.file _ executable) => .ok (loc, fs.put loc (.file [] executable))
    | none => .ok (loc, fs.put loc (.file [] false))

def isExecutableAt (fs : Files) (loc : Location) : Bool :=
  match fs.node? loc with
  | some (.file _ executable) => executable
  | _ => false

/-- Writes a file in place of what it held. -/
def write (fs : Files) (p : Path) (content : List UInt8) : Except IoError Files := do
  let (loc, fs) ← fs.create p
  .ok (fs.put loc (.file content (fs.isExecutableAt loc)))

def install (fs : Files) (p : Path) : Except IoError Files := do
  let (loc, fs) ← fs.create p
  .ok (fs.put loc (.file [] true))

def read (fs : Files) (p : Path) : Except IoError (List UInt8) := do
  match ← fs.find? p with
  | (_, .file content _) => .ok content
  | (_, .directory) => .error .isADirectory

def readText (fs : Files) (p : Path) : Except IoError String := do
  match Utf8.decode? (← fs.read p) with
  | some text => .ok text
  | none => .error .notText

/-- The bytes at a location, none where no file stands. -/
def contentAt (fs : Files) (loc : Location) : List UInt8 :=
  match fs.node? loc with
  | some (.file content _) => content
  | _ => []

/-- Copies a file. The source is opened, then the target is emptied or created, then the source is
read: a file copied onto itself ends up empty. -/
def copy (fs : Files) (source target : Path) : Except IoError Files := do
  match ← fs.find? source with
  | (_, .directory) => .error .notARegularFile
  | (origin, .file _ executable) =>
    let (loc, fs) ← fs.create target
    .ok (fs.put loc (.file (fs.contentAt origin) executable))

/-- Takes away what a path leads to, with all below it; a path that leads nowhere changes nothing. -/
def remove (fs : Files) (p : Path) : Files :=
  match fs.find? p with
  | .ok (loc, _) => fs.take loc
  | .error _ => fs

def empty (workingDir : Location) : Files :=
  { workingDir := workingDir
    nodes := (List.range workingDir.length).map fun n => (workingDir.take (n + 1), .directory) }

/-- What stands below the working directory, each location without the names above. -/
def below (fs : Files) : List (Location × Node) :=
  fs.nodes.filterMap fun entry =>
    if fs.workingDir.isPrefixOf entry.1 && entry.1 != fs.workingDir then
      some (entry.1.drop fs.workingDir.length, entry.2)
    else none

end Files

end TraceViewer
