import LayeredConfig.Error
import LayeredConfig.FilePath
import LayeredConfig.Journal
import LayeredConfig.Text.Encoding

/-!
# File systems

What the library asks of the place where files are kept. Answers carry errors of the library; what
reading a file reports is part of its answer.
-/

namespace LayeredConfig

/-- The answer to reading a file: its text or why there is none, and what that reports. -/
structure Reading where
  outcome : Except Failure String
  events : List Event

structure FileSystem where
  isDirectory : String → Bool
  isFile : String → Bool
  read : String → Reading
  /-- The paths of the files directly in a directory. -/
  list : String → Except Failure (List String)

namespace Reading

def refused (e : Failure) : Reading := ⟨.error e, []⟩

/-- A failure that is reported: `problem` in full to listeners, `reason` in the error. -/
def unreadable (path problem reason : String) : Reading :=
  ⟨.error (.config (.readFailure path reason)),
    [⟨.error, "config_file_unreadable",
      Fields.event "read" (some path) (OrderedMap.singleton "error" (.str problem))⟩]⟩

/-- One byte order mark at the start is no part of the text. -/
def withoutMark : List Char → List Char
  | c :: rest => if c.toNat = 0xfeff then rest else c :: rest
  | [] => []

def ofBytes (encoding : Encoding) (path : String) (bytes : List UInt8) : Reading :=
  match encoding.decode bytes with
  | .error r =>
    unreadable path r.message ("not valid " ++ encoding.name ++ " text (" ++ r.reason ++ ")")
  | .ok cs =>
    ⟨.ok (String.ofList (withoutMark cs)),
      [⟨.debug, "config_file_read",
        Fields.event "read" (some path) (OrderedMap.singleton "size" (.int bytes.length))⟩]⟩

end Reading

def FileSystem.fetch (fs : FileSystem) (path : String) : Run String := do
  let reading := fs.read path
  modify fun j => reading.events.foldl Journal.record j
  Run.ofExcept reading.outcome

end LayeredConfig
