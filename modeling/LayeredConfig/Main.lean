import LayeredConfig.CommandLine.Run

/-!
# The program

Looks at the paths that a command names, runs the command on what is found there, and carries out
what it replies.
-/

namespace LayeredConfig.Program

open CommandLine

inductive Found where
  | nothing
  | file (reading : Reading)
  /-- A directory with its files by path, or why it cannot be listed. -/
  | directory (files : Except Failure (List (String × Reading)))

def pathsOf (workingDirectory : FilePath) : Command → List String
  | .read source .. | .get source .. | .detect source => [source]
  | .profiles directory _ => [directory, (FilePath.read directory).text]
  | .starter destination baseName _ =>
    let directory := FilePath.resolve workingDirectory (FilePath.read destination)
    directory.text :: (Starter.files baseName).map fun f =>
      (directory.join (FilePath.read f.1)).text
  | .help | .version | .info => []

def reasonOf (path : String) : IO.Error → ConfigError
  | .noFileOrDirectory .. => .notFound path
  | .permissionDenied .. => .permissionDenied path
  | e => .readFailure path (toString e)

def readAt (path : String) : IO Reading := do
  try
    let bytes ← IO.FS.readBinFile ((← IO.currentDir) / path)
    return Reading.ofBytes .utf8 path bytes.toList
  catch e => return .refused (.config (reasonOf path e))

def isCandidate (path : String) : Bool :=
  ((FilePath.read path).extension?).any (Grammar.extensionsOf Grammar.all).contains

def listAt (path : String) : IO (Except Failure (List (String × Reading))) := do
  try
    let entries ← ((← IO.currentDir) / path).readDir
    let paths := entries.toList.map fun e =>
      ((FilePath.read path).join ⟨"", [e.fileName]⟩).text
    let files ← (Discovery.sorted (paths.filter isCandidate)).filterMapM fun (p : String) => do
      if ← ((← IO.currentDir) / p).isDir then return none else return some (p, ← readAt p)
    return .ok files
  catch e => return .error (.config (reasonOf path e))

def lookAt (path : String) : IO (String × Found) := do
  let place := (← IO.currentDir) / path
  if ← place.isDir then return (path, .directory (← listAt path))
  else if ← place.pathExists then return (path, .file (← readAt path))
  else return (path, .nothing)

def fileSystem (found : List (String × Found)) : FileSystem :=
  let at? (path : String) := (found.lookup path).getD .nothing
  let inside : List (String × Reading) := found.flatMap fun f =>
    match f.2 with
    | .directory (.ok files) => files
    | .file reading => [(f.1, reading)]
    | _ => []
  { isDirectory := fun path => match at? path with | .directory _ => true | _ => false
    isFile := fun path => match at? path with | .file _ => true | _ => false
    read := fun path => (inside.lookup path).getD (.refused (.config (.notFound path)))
    list := fun path => match at? path with
      | .directory files => files.map (·.map Prod.fst)
      | _ => .error (.config (.notFound path)) }

def environment : IO Environment := do
  let bytes ← try IO.FS.readBinFile "/proc/self/environ" catch _ => pure ByteArray.empty
  let text := (String.fromUTF8? bytes).getD ""
  return Environment.ofList <| (text.splitOn "\x00").filterMap fun entry =>
    match Text.cut '=' entry.toList with
    | (name, some value) => some (String.ofList name, String.ofList value)
    | _ => none

def input : Command → IO String
  | .read "-" .. | .get "-" .. => do (← IO.getStdin).readToEnd
  | _ => return ""

def writeAt (file : String × String) : IO Unit := do
  let place := (← IO.currentDir) / file.1
  if let some parent := place.parent then IO.FS.createDirAll parent
  IO.FS.writeFile place file.2

def finish : Outcome → IO Unit
  | .printed text => do (← IO.getStdout).putStr text
  | .refused e => do (← IO.getStderr).putStrLn ("Error: " ++ e.described.escaped)
  | .misused => do (← IO.getStderr).putStrLn usage
  | .failed f => do
    let described := ((Failure.fault f).described?).getD "unexpected error"
    (← IO.getStderr).putStrLn ("Error: " ++ described.escaped)

def run (arguments : List String) : IO UInt32 := do
  match Command.read? arguments with
  | none =>
    finish .misused
    return UInt32.ofNat Outcome.misused.status
  | some command =>
    let workingDirectory := FilePath.read (toString (← IO.currentDir))
    let found ← (pathsOf workingDirectory command).mapM lookAt
    let world : World :=
      { fileSystem := fileSystem found, environment := ← environment, input := ← input command
        workingDirectory }
    let reply := command.run world
    reply.writes.forM writeAt
    finish reply.outcome
    return UInt32.ofNat reply.outcome.status

end LayeredConfig.Program

def main (arguments : List String) : IO UInt32 := LayeredConfig.Program.run arguments
