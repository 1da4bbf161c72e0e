import LayeredConfig.FileSystem.Basic

/-!
# Disks

A file system held as a value: files and directories by the parts of their absolute paths. A single
path may be in trouble when it is read or listed, and another when it is only looked at, as all are
that lie in a directory which may be listed but not entered.
-/

namespace LayeredConfig

inductive Trouble where
  | denied
  | vanished
  | directory
  | device
  | other (text : String)
  deriving DecidableEq, Repr

inductive Miss where
  | absent
  /-- It goes through a file. -/
  | notDirectory
  | tooLong
  deriving DecidableEq, Repr

structure Disk where
  workingDirectory : List String
  files : OrderedMap (List String) (List UInt8) := OrderedMap.empty
  directories : List (List String) := []
  /-- What goes wrong when a path is read or listed, by its normal form. -/
  troubles : OrderedMap String Trouble := OrderedMap.empty
  /-- What goes wrong when a path is looked at, by its normal form. -/
  obstacles : OrderedMap String Trouble := OrderedMap.empty

namespace Disk

inductive Place where
  | directory (parts : List String)
  | file (bytes : List UInt8)

def isAbove (parts below : List String) : Bool :=
  parts.length < below.length && parts.isPrefixOf below

/-- Whatever lies above a file or a directory is a directory. -/
def holdsDirectory (d : Disk) (parts : List String) : Bool :=
  parts.isPrefixOf d.workingDirectory || d.directories.any parts.isPrefixOf ||
    d.files.keys.any (isAbove parts)

def placeAt (d : Disk) (parts : List String) : Except Miss Place :=
  if d.holdsDirectory parts then .ok (.directory parts)
  else match d.files.get? parts with
    | some bytes => .ok (.file bytes)
    | none => .error .absent

/-- The most bytes of a part of a path. -/
def partLimit : Nat := 255

def pathLimit : Nat := 4096

/-- Follows the parts of a path one by one from the directory `here`. -/
def walk (d : Disk) (here : List String) : List String → Except Miss Place
  | [] => d.placeAt here
  | ".." :: rest => walk d here.dropLast rest
  | part :: rest =>
    if partLimit < part.utf8ByteSize then .error .tooLong
    else match d.placeAt (here ++ [part]) with
      | .ok (.file bytes) => if rest.isEmpty then .ok (.file bytes) else .error .notDirectory
      | .ok (.directory _) => walk d (here ++ [part]) rest
      | .error miss => .error miss

def find (d : Disk) (path : FilePath) : Except Miss Place :=
  if pathLimit ≤ path.text.utf8ByteSize then .error .tooLong
  else d.walk (if path.isAbsolute then [] else d.workingDirectory) path.parts

/-- What a look at a path finds there. A path that is not there is no fault, and neither is one that
no file system admits for a NUL character. -/
def look (d : Disk) (path : String) : Except Fault (Option Place) :=
  if FilePath.hasNul path then .ok none
  else match d.obstacles.get? (FilePath.read path).text with
    | some .vanished => .ok none
    | some .denied => .error .notPermitted
    | some _ => .error .notReachable
    | none =>
      match d.find (FilePath.read path) with
      | .ok place => .ok (some place)
      | .error .tooLong => .error .pathTooLong
      | .error _ => .ok none

def isDirectory (d : Disk) (path : String) : Bool :=
  d.look path matches .ok (some (.directory _))

def isFile (d : Disk) (path : String) : Bool :=
  d.look path matches .ok (some (.file _))

def troubleAt? (d : Disk) (path : String) : Option Trouble :=
  d.troubles.get? (FilePath.read path).text

def systemFailure (path : String) (number : Nat) (reason : String) : Reading :=
  Reading.unreadable path
    ("[Errno " ++ Integer.text number ++ "] " ++ reason ++ ": " ++
      Text.quote (FilePath.read path).text) reason

def readTrouble (path : String) : Trouble → Reading
  | .denied => .refused (.config (.permissionDenied path))
  | .vanished => .refused (.config (.notFound path))
  | .directory => .refused (.config (.isDirectory path))
  | .device => systemFailure path 5 "Input/output error"
  | .other text => Reading.unreadable path text text

/-- The reading of a file, at which it is looked first. Nobody catches a fault of that look. -/
def read (d : Disk) (encoding : Encoding) (path : String) : Reading :=
  match d.look path with
  | .error f => .refused (.fault f)
  | .ok (some (.directory _)) => .refused (.config (.isDirectory path))
  | .ok _ =>
    if FilePath.hasNul path then .refused (.fault .nulInPath)
    else match d.troubleAt? path, d.find (FilePath.read path) with
      | some trouble, _ => readTrouble path trouble
      | none, .ok (.directory _) => .refused (.config (.isDirectory path))
      | none, .ok (.file bytes) => Reading.ofBytes encoding path bytes
      | none, .error .absent => .refused (.config (.notFound path))
      | none, .error .notDirectory => systemFailure path 20 "Not a directory"
      | none, .error .tooLong => systemFailure path 36 "File name too long"

def listTrouble (path : String) : Trouble → ConfigError
  | .denied => .permissionDenied path
  | .vanished => .notFound path
  | .directory => .readFailure path "Is a directory"
  | .device => .readFailure path "Input/output error"
  | .other text => .readFailure path text

def entryNames (d : Disk) (parts : List String) : List String :=
  let files := (d.files.keys.filter fun file => file.dropLast = parts).filterMap List.getLast?
  let holders := d.workingDirectory :: d.directories ++ d.files.keys.map List.dropLast
  let directories := (holders.filter (isAbove parts)).filterMap (·[parts.length]?)
  (files ++ directories.eraseDups).mergeSort fun a b => decide (a ≤ b)

def entryPaths (d : Disk) (path : String) (parts : List String) : List String :=
  (d.entryNames parts).map fun name => ((FilePath.read path).join ⟨"", [name]⟩).text

/-- Those of the paths that lead to files. Nobody catches a fault of looking at one of them. -/
def pickFiles (d : Disk) : List String → Except Fault (List String)
  | [] => .ok []
  | path :: rest => do
    match ← d.look path with
    | some (.file _) => return path :: (← pickFiles d rest)
    | _ => pickFiles d rest

def list (d : Disk) (path : String) : Except Failure (List String) :=
  match d.troubleAt? path with
  | some trouble => .error (.config (listTrouble path trouble))
  | none =>
    if FilePath.hasNul path then .error (.fault .nulInPath)
    else match d.find (FilePath.read path) with
      | .error .tooLong => .error (.config (.readFailure path "File name too long"))
      | .error .absent => .error (.config (.notFound path))
      | .error .notDirectory | .ok (.file _) =>
        .error (.config (.readFailure path "Not a directory"))
      | .ok (.directory parts) => (d.pickFiles (d.entryPaths path parts)).mapError Failure.fault

def fileSystem (d : Disk) (encoding : Encoding) : FileSystem where
  isDirectory := d.isDirectory
  isFile := d.isFile
  read := d.read encoding
  list := d.list

def absolute (d : Disk) (path : FilePath) : List String :=
  (FilePath.resolve ⟨"/", d.workingDirectory⟩ path).parts

/-- A change to a disk. What was done before a fault stays. -/
abbrev Change := ExceptT Fault (StateM Disk)

/-- Makes the directory at a path whose parent is there. -/
def makeHere (path : FilePath) : Change Unit := do
  let d ← getThe Disk
  match d.find path with
  | .ok (.directory _) => return
  | .ok (.file _) => throw .fileInTheWay
  | .error .notDirectory => throw .notADirectory
  | .error .tooLong => throw .pathTooLong
  | .error .absent => set { d with directories := d.absolute path :: d.directories }

def isAbsent (d : Disk) (path : FilePath) : Bool :=
  d.find path matches .error .absent

/-- Makes the directory at a path and every directory on the way to it. The parts count as they
are written: a `..` leads back from a directory, which is made as well. -/
def makeDirectory (root : String) : (reversed : List String) → Change Unit
  | [] => return
  | part :: above => do
    let path : FilePath := ⟨root, (part :: above).reverse⟩
    let d ← getThe Disk
    if d.isAbsent path && d.isAbsent path.parent then makeDirectory root above
    makeHere path

def write (path : String) (bytes : List UInt8) : Change Unit := do
  let p := FilePath.read path
  if FilePath.hasNul p.parent.text then throw .nulInPath
  makeDirectory p.root p.parent.parts.reverse
  let d ← getThe Disk
  if FilePath.hasNul path then throw .nulInPath
  match d.find p with
  | .ok (.directory _) => throw .directoryInTheWay
  | .error .tooLong => throw .pathTooLong
  | _ => set { d with files := d.files.insert (d.absolute p) bytes }

/-- Writes files one by one, up to the first that cannot be written. -/
def writeAll (files : List (String × String)) : Change Unit :=
  files.forM fun file => write file.1 file.2.toUTF8.toList

/-- The disk without a file, whose directory stays. -/
def remove (d : Disk) (path : String) : Disk :=
  let parts := d.absolute (FilePath.read path)
  { d with
    files := OrderedMap.ofList (d.files.entries.filter fun e => e.1 ≠ parts)
    directories := parts.dropLast :: d.directories }

def after {α : Type} (d : Disk) (change : Change α) : Except Fault α × Disk :=
  (ExceptT.run change).run d

end Disk

end LayeredConfig
