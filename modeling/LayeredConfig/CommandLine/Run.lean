import LayeredConfig.CommandLine.Command
import LayeredConfig.Context.Getters
import LayeredConfig.Json.Print
import LayeredConfig.Load
import LayeredConfig.Starter

/-!
# Running commands

What a command prints and writes, given everything outside that it may look at. Results are printed
as JSON.
-/

namespace LayeredConfig.CommandLine

structure Package where
  name : String
  version : String
  requirement : String
  summary : String
  deriving DecidableEq, Repr

def package : Package where
  name := "yodel"
  version := "0.1.0"
  requirement := ">=3.10"
  summary :=
    "Load JSON, YAML, and TOML configuration with profile overlays and environment placeholders"

structure World where
  fileSystem : FileSystem
  environment : Environment
  /-- The whole standard input. -/
  input : String
  workingDirectory : FilePath
  /-- Absent when the program is not properly installed. -/
  installed : Option Package := some package

inductive Outcome where
  | printed (text : String)
  /-- An error of the library, for one line. -/
  | refused (error : ConfigError)
  | misused
  | failed (fault : Fault)
  deriving DecidableEq, Repr

/-- The end of a command, and the files that it writes before printing. -/
structure Reply where
  outcome : Outcome
  writes : List (String × String) := []

namespace Outcome

def line (text : String) : Outcome := .printed (text ++ "\n")

def ofExcept : Except Failure String → Outcome
  | .ok text => line text
  | .error (.config e) => .refused e
  | .error (.fault f) => .failed f

/-- The exit status for a fault: that of an invalid argument for bad values and types, the number
that the operating system has for its own errors, and one for the others. -/
def faultStatus : Fault → Nat
  | .pathTooLong => 36
  | .fileInTheWay => 17
  | .notADirectory => 20
  | .directoryInTheWay => 21
  | .codeTooLarge | .beyondFloat | .noDigits | .unknownTruth | .indexOfObject | .notATimestamp
  | .keyStep | .indexBehindEnd | .tooDeep => 1
  | _ => 22

def status : Outcome → Nat
  | .printed _ => 0
  | .refused _ => 1
  | .misused => 2
  | .failed f => faultStatus f

end Outcome

/-- A dash stands for the standard input, in which every line break counts as a line feed. -/
def World.source (w : World) (source : String) : Source :=
  if source = "-" then .text (String.ofList (Text.unifyBreaks w.input.toList)) else .text source

def World.load (w : World) (source : String) (choices : Choices) : Except Failure Context := do
  let options ← choices.options.mapError Failure.fault
  let loader : Loader := { fileSystem := w.fileSystem, environment := w.environment, options }
  ((loader.load (w.source source)).start {}).1

def originsDocument (origins : Provenance) : Document :=
  .object <| origins.entries.map fun e =>
    (e.1, .object [("profile", .optional e.2.profile), ("path", .optional e.2.path),
      ("key", .str e.2.key)])

def valueAt (c : Context) (key : String) (coerce : Bool) : Option Kind → Except Failure Leaf
  | some .string => (if coerce then c.parseString key else c.getString key).map .str
  | some .int => (if coerce then c.parseInt key else c.getInt key).map .int
  | some .float => (if coerce then c.parseFloat key else c.getFloat key).map .float
  | some .bool => (if coerce then c.parseBool key else c.getBool key).map .bool
  | some .null | none => c.lookup key

def runRead (w : World) (source : String) (choices : Choices) (indent : Option Int)
    (provenance : Bool) : Except Failure String := do
  let c ← w.load source choices
  let document ← c.document.mapError Failure.fault
  if provenance then
    return Json.print indent
      (.object [("config", document), ("provenance", originsDocument c.origins)])
  else return Json.print indent document

def runGet (w : World) (source key : String) (choices : Choices) (kind : Option Kind)
    (coerce : Bool) : Except Failure String := do
  let c ← w.load source choices
  return Json.print none (.leaf (← valueAt c key coerce kind))

def runProfiles (w : World) (directory : String) (choices : Choices) : Except Failure String := do
  let options ← choices.options.mapError Failure.fault
  let listing ← w.fileSystem.list directory
  let files ← ((Discovery.select directory listing options w.environment
    (Grammar.extensionsOf Grammar.all)).start {}).1
  return Json.print (some 2) <| .object
    [("active", .strs (activeProfiles options w.environment)),
      ("files", .list (files.map fun file =>
        .object [("path", .str file.path), ("profile", .optional file.slot.profile?)]))]

def runDetect (w : World) (source : String) : Except Failure String := do
  let path := if w.fileSystem.isFile source then some source else none
  let content ← if w.fileSystem.isFile source then (w.fileSystem.read source).outcome
    else pure source
  match Format.guess Grammar.all content path with
  | some g => return g.name
  | none => throw (.config (.unknownFormat path none))

def infoLines (p : Package) : List String :=
  ["Info for " ++ p.name ++ ":", "  Version         : " ++ p.version,
    "  Requires-Python : " ++ p.requirement, "  Summary         : " ++ p.summary]

def usage : String :=
  "Usage: " ++ package.name ++ " [OPTIONS] COMMAND [ARGS]...\n\n" ++
    "Commands: " ++ ", ".intercalate commandNames

/-- The directory that a command is given must exist. Here an empty text names none. -/
def withDirectory (w : World) (directory : String) (run : String → Except Failure String) :
    Outcome :=
  if FilePath.hasNul directory then .failed .nulInPath
  else if !directory.isEmpty && w.fileSystem.isDirectory directory then
    .ofExcept (run (FilePath.read directory).text)
  else .misused

def runStarter (w : World) (destination baseName : String) (force : Bool) : Reply :=
  if FilePath.hasNul destination then { outcome := .failed .nulInPath }
  else
    let directory := FilePath.resolve w.workingDirectory (FilePath.read destination)
    if w.fileSystem.isFile directory.text then { outcome := .misused }
    else
      let writes := Starter.pending w.fileSystem directory baseName force
      { outcome := .line (Json.print (some 2) (.strs (writes.map (·.1)))), writes }

def Command.run (w : World) : Command → Reply
  | .help => { outcome := .line usage }
  | .version => { outcome := .line (package.name ++ " version " ++ package.version) }
  | .info =>
    { outcome := .line <| match w.installed with
        | some p => "\n".intercalate (infoLines p)
        | none => package.name ++ " (metadata unavailable)" }
  | .read source choices indent provenance =>
    { outcome := .ofExcept (runRead w source choices indent provenance) }
  | .get source key choices kind coerce =>
    { outcome := .ofExcept (runGet w source key choices kind coerce) }
  | .profiles directory choices =>
    { outcome := withDirectory w directory (runProfiles w · choices) }
  | .detect source => { outcome := .ofExcept (runDetect w source) }
  | .starter destination baseName force => runStarter w destination baseName force

def run (w : World) (arguments : List String) : Reply :=
  match Command.read? arguments with
  | some command => command.run w
  | none => { outcome := .misused }

end LayeredConfig.CommandLine
