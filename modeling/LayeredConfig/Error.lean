import LayeredConfig.Fault
import LayeredConfig.Leaf

/-!
# Errors

Everything the library reports as an error of its own, by cause, with the wording of each in one
place. The families group the errors by the stage that they come from; a description starts with
the name of the family.
-/

namespace LayeredConfig

inductive ErrorFamily where
  | file
  | parse
  | resolver
  | validation
  | property
  | configuration
  deriving DecidableEq, Repr

def ErrorFamily.title : ErrorFamily → String
  | .file => "file error"
  | .parse => "parse error"
  | .resolver => "resolver error"
  | .validation => "validation error"
  | .property => "property error"
  | .configuration => "configuration error"

inductive ConfigError where
  | notFound (path : String)
  | permissionDenied (path : String)
  | readFailure (path reason : String)
  | isDirectory (path : String)
  /-- The location is shown only when both its parts are known. -/
  | invalidSyntax (grammar : String) (line column : Option Int) (message : String)
  | invalidStructure (message : Text)
  | unknownFormat (source hint : Option String)
  | unresolvedPlaceholder (name line : String)
  | emptyConfig (source : Option String)
  | invalidConfig (reason : Text)
  | pathNotFound (path : Text)
  | typeMismatch (path : Text) (expected : String) (actual : Leaf)
  | invalidPath (text : Text) (reason : String)
  /-- A file error without further detail. -/
  | file (path : String) (message : Text)
  /-- An error of a family without further detail. -/
  | plain (family : ErrorFamily) (message : Text)
  deriving DecidableEq, Repr

namespace ConfigError

/-- A text in front of `detail`, unless that is missing or empty. -/
def detail (before : String) (detail : Option String) (after : String) : String :=
  match detail with
  | none => ""
  | some text => if text.isEmpty then "" else before ++ text ++ after

def location : Option Int → Option Int → String
  | some line, some column =>
    " at line " ++ Integer.text line ++ ", column " ++ Integer.text column
  | _, _ => ""

def message : ConfigError → Text
  | .notFound path => "configuration source not found: " ++ path
  | .permissionDenied path => "permission denied: " ++ path
  | .readFailure path reason => "failed to read " ++ path ++ ": " ++ reason
  | .isDirectory path => "expected a file but found a directory: " ++ path
  | .invalidSyntax grammar line column message =>
    "invalid " ++ grammar ++ " syntax" ++ location line column ++ ": " ++ message
  | .invalidStructure message => message
  | .unknownFormat source hint =>
    "unable to determine configuration format" ++ detail " for " source "" ++ detail " (" hint ")"
  | .unresolvedPlaceholder name line =>
    "unresolved placeholder '" ++ name ++ "' in value: " ++ line
  | .emptyConfig source => "configuration is empty" ++ detail ": " source ""
  | .invalidConfig reason => "invalid configuration: " ++ reason
  | .pathNotFound path => "property not found: " ++ path
  | .typeMismatch path expected actual =>
    "type mismatch at " ++ path ++ ": expected " ++ expected ++ ", found " ++ actual.kind.name ++
      " " ++ actual.shown
  | .invalidPath text reason => "invalid property path " ++ Text.quote text ++ ": " ++ reason
  | .file _ message => message
  | .plain _ message => message

def family : ConfigError → ErrorFamily
  | .notFound _ | .permissionDenied _ | .readFailure .. | .isDirectory _ | .file .. => .file
  | .invalidSyntax .. | .invalidStructure _ | .unknownFormat .. => .parse
  | .unresolvedPlaceholder .. => .resolver
  | .emptyConfig _ | .invalidConfig _ => .validation
  | .pathNotFound _ | .typeMismatch .. | .invalidPath .. => .property
  | .plain family _ => family

def described (e : ConfigError) : Text :=
  e.family.title ++ ": " ++ e.message

end ConfigError

inductive Failure where
  | config (error : ConfigError)
  | fault (fault : Fault)
  deriving DecidableEq, Repr

namespace Failure

instance : Coe ConfigError Failure := ⟨.config⟩

instance : Coe Fault Failure := ⟨.fault⟩

def message? : Failure → Option Text
  | .config e => some e.message
  | .fault f => f.message?

def unexpected (message : Text) : Text := "unexpected error: " ++ message

def described? : Failure → Option Text
  | .config e => some e.described
  | .fault f => f.message?.map unexpected

/-- A failure to look something up, which the lenient accessors answer with a default. -/
def isLookup : Failure → Bool
  | .config e => e.family == .property
  | .fault _ => false

end Failure

end LayeredConfig
