import TraceViewer.Files.Path

namespace TraceViewer

/-- Why a command line does not start the viewer. -/
inductive UsageError where
  | help
  | version
  | missingArgument
  | unknownArgument
  | invalidValue
  | repeatedOption
  /-- A flag that takes no value is given one. -/
  | surplusValue
deriving DecidableEq

structure Invocation where
  sourceFile : Path
  tracerProgram : Path
  dataDir : Path
  scratchDir : Option Path
  log : String
deriving DecidableEq

namespace CommandLine

inductive ValueOption where
  | scratchDir
  | log
deriving DecidableEq

/-- What a word of the command line gives a value for. -/
inductive Slot where
  | option (o : ValueOption)
  | positional
deriving DecidableEq

/-- How far a command line is read. A value is taken up only when the next word that is known
follows it, so the last slot and its value are held back. -/
structure Reading where
  positionals : List String := []
  scratchDir : Option String := none
  log : Option String := none
  /-- The slot opened last, and its value if that was read already. -/
  held : Option (Slot × Option String) := none
  /-- How many positional words were read, the one held back included. -/
  seen : Nat := 0
  /-- Whether options have come to their end. -/
  ended : Bool := false

def positionalCount : Nat := 3

def ValueOption.ofName? (name : List Char) : Option ValueOption :=
  if name = "scratch-dir".toList then some .scratchDir
  else if name = "log".toList then some .log
  else none

/-- What the flag of a long name asks for. -/
def flagOfName? (name : List Char) : Option UsageError :=
  if name = "help".toList then some .help
  else if name = "version".toList then some .version
  else none

/-- What the flag of a letter asks for. -/
def flagOfLetter? (c : Char) : Option UsageError :=
  if c = 'h' then some .help else if c = 'V' then some .version else none

/-- Takes up a value. An option may be given once, and a path may not be empty. -/
def takeUp (r : Reading) : Slot → String → Except UsageError Reading
  | .option .scratchDir, v =>
    if r.scratchDir.isSome then .error .repeatedOption
    else if v = "" then .error .invalidValue
    else .ok { r with scratchDir := some v }
  | .option .log, v =>
    if r.log.isSome then .error .repeatedOption else .ok { r with log := some v }
  | .positional, v =>
    if v = "" then .error .invalidValue
    else .ok { r with positionals := r.positionals ++ [v] }

/-- Takes up what is held back; a slot that got no value is an error. -/
def release (r : Reading) : Except UsageError Reading :=
  match r.held with
  | none => .ok r
  | some (_, none) => .error .invalidValue
  | some (slot, some v) => takeUp { r with held := none } slot v

/-- Reads an option with its name and, after an equals sign, its value. -/
def readLong (r : Reading) (body : List Char) : Except UsageError Reading :=
  let name := body.takeWhile (· != '=')
  let value := ((body.dropWhile (· != '=')).tail?).map String.ofList
  match ValueOption.ofName? name, flagOfName? name, value with
  | some o, _, some v => do takeUp (← release r) (.option o) v
  | some o, _, none => do .ok { ← release r with held := some (.option o, none) }
  | none, some _, some _ => .error .surplusValue
  | none, some asked, none => do
    let _ ← release r
    .error asked
  | none, none, _ => .error .unknownArgument

/-- Reads a flag by its letter; letters after the first have no say. -/
def readShort (r : Reading) (c : Char) : Except UsageError Reading :=
  match flagOfLetter? c with
  | some asked => do
    let _ ← release r
    .error asked
  | none => .error .unknownArgument

def readPositional (r : Reading) (v : String) : Except UsageError Reading :=
  if r.seen = positionalCount then .error .unknownArgument
  else do .ok { ← release r with held := some (.positional, some v), seen := r.seen + 1 }

/-- Reads a word that is no option: the value of an option that waits for one, else a positional
word. -/
def readValue (r : Reading) (v : String) : Except UsageError Reading :=
  match r.held with
  | some (.option o, none) => .ok { r with held := some (.option o, some v) }
  | _ => readPositional r v

/-- Reads one word. A lone hyphen is a value, and two alone end the options. -/
def readWord (r : Reading) (word : String) : Except UsageError Reading :=
  if r.ended then readPositional r word
  else
    match word.toList with
    | ['-', '-'] => .ok { r with ended := true }
    | '-' :: '-' :: body => readLong r body
    | '-' :: c :: _ => readShort r c
    | _ => readValue r word

/-- Reads words from left to right; the first one that cannot be read decides. -/
def readWords : Reading → List String → Except UsageError Reading
  | r, [] => release r
  | r, word :: rest =>
    match readWord r word with
    | .ok r => readWords r rest
    | .error e => .error e

def usage : String :=
  "Usage: r2ta-viewer [OPTIONS] <SOURCE_FILE> <TRACER_CMD> <DATA_DIR>\n" ++
    "Options:\n" ++
    "      --scratch-dir <SCRATCH_DIR>  Directory receiving rendered charts\n" ++
    "      --log <LOG>                  Log filter [default: info]\n" ++
    "  -h, --help                       Print help\n" ++
    "  -V, --version                    Print version"

/-- What is logged unless the command line says otherwise. -/
def defaultLog : String := "info"

/-- What the words after the program's name ask for. -/
def parse (words : List String) : Except UsageError Invocation := do
  let r ← readWords {} words
  match r.positionals with
  | [source, tracer, data] =>
    .ok
      { sourceFile := Path.ofString source
        tracerProgram := Path.ofString tracer
        dataDir := Path.ofString data
        scratchDir := r.scratchDir.map Path.ofString
        log := r.log.getD defaultLog }
  | _ => .error .missingArgument

end CommandLine

end TraceViewer
