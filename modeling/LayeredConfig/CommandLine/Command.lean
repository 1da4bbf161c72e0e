import LayeredConfig.CommandLine.Arguments
import LayeredConfig.FilePath
import LayeredConfig.Leaf
import LayeredConfig.Options

/-!
# Commands

What a command line asks for. Misuse, such as an unknown option or a missing argument, makes no
command at all.
-/

namespace LayeredConfig.CommandLine

structure Choices where
  format : Format := none
  profiles : List String := []
  profileVariable : String := ({} : Options).profileVariable
  baseName : String := ({} : Options).baseName
  strict : Bool := false
  placeholders : Bool := true
  deriving DecidableEq, Repr

def Choices.options (c : Choices) : Except Fault Options :=
  ({ ({} : Options) with
      format := c.format
      profiles := c.profiles
      profileVariable := c.profileVariable
      mode := if c.strict then .strict else .lenient
      placeholders := c.placeholders } : Options).withBaseName c.baseName

inductive Command where
  | help
  | version
  | info
  | read (source : String) (choices : Choices) (indent : Option Int) (provenance : Bool)
  /-- Without a kind any leaf will do. -/
  | get (source key : String) (choices : Choices) (kind : Option Kind) (coerce : Bool)
  | profiles (directory : String) (choices : Choices)
  | detect (source : String)
  | starter (destination baseName : String) (force : Bool)
  deriving DecidableEq, Repr

def helpOption : Declared := .switch helpName []

def profileOptions : List Declared :=
  [helpOption, .value "--profile", .value "--profile-env-var", .value "--base-name"]

def loadOptions : List Declared :=
  profileOptions ++ [.value "--format", .switch "--strict" ["--lenient"],
    .switch "--placeholders" ["--no-placeholders"]]

/-- The choices made among arguments; a format that is none makes no choices. -/
def choices? (g : Given) : Option Choices := do
  let formats := ([none, some .json, some .yaml, some .toml] : List Format).map Format.name
  let format ← choose? formats ((g.value? "--format").getD Format.auto.name)
  let default : Choices := {}
  return {
    format := (Format.ofName? format).getD Format.auto
    profiles := g.all "--profile"
    profileVariable := (g.value? "--profile-env-var").getD default.profileVariable
    baseName := (g.value? "--base-name").getD default.baseName
    strict := g.isOn "--strict" false
    placeholders := g.isOn "--placeholders" true }

def kindNamed? (name : String) : Option (Option Kind) := do
  let kinds := [Kind.string, .int, .float, .bool]
  let chosen ← choose? ("any" :: kinds.map Kind.name) name
  return kinds.find? (·.name = chosen)

def indent? (g : Given) : Option (Option Int) :=
  match g.value? "--indent" with
  | none => some none
  | some text => (Integer.read 10 text.toList).toOption.map some

def optionsOf : String → List Declared
  | "read" => loadOptions ++ [.value "--indent", .switch "--provenance" ["--no-provenance"]]
  | "get" => loadOptions ++ [.value "--type", .switch "--parse" ["--no-parse"]]
  | "profiles" => profileOptions
  | "generate-examples" =>
    [helpOption, .value "--destination", .value "--base-name", .switch "--force" ["--no-force"]]
  | _ => [helpOption]

/-- The command of a name and the arguments behind it. Surplus arguments are misuse, except that a
text which names no path is a fault of its own, for the command to tell. -/
def Command.named? (name : String) (g : Given) : Option Command :=
  match name, g.rest with
  | "info", [] => some .info
  | "read", [source] =>
    return .read source (← choices? g) (← indent? g) (g.isOn "--provenance" false)
  | "get", [source, key] =>
    return .get source key (← choices? g) (← kindNamed? ((g.value? "--type").getD "any"))
      (g.isOn "--parse" false)
  | "profiles", directory :: surplus => do
    guard (surplus.isEmpty || FilePath.hasNul directory)
    return .profiles directory (← choices? g)
  | "detect", [source] => some (.detect source)
  | "generate-examples", surplus => do
    let destination ← g.value? "--destination"
    guard (surplus.isEmpty || FilePath.hasNul destination)
    return .starter destination
      ((g.value? "--base-name").getD ({} : Choices).baseName) (g.isOn "--force" false)
  | _, _ => none

def commandNames : List String :=
  ["info", "read", "get", "profiles", "detect", "generate-examples"]

/-- Reads the arguments of a command. Asking for help wins over what is missing. -/
def Command.ofArguments? (name : String) (arguments : List String) : Option Command := do
  let g ← readArguments (optionsOf name) true arguments
  if g.isOn helpName false then return .help else Command.named? name g

def versionName : String := "--version"

/-- What the switches before the command ask for instead of a command; the first one counts. -/
def Command.instead? (g : Given) : Option Command :=
  g.switches.findSome? fun s =>
    if s.1 = helpName then some .help else if s.1 = versionName then some .version else none

def readSwitches (arguments : List String) : Option Given :=
  readArguments
    [helpOption, .switch versionName [], .switch "--traceback" ["--no-traceback"]] false arguments

/-- The command that a command line asks for. Where the name of a command is expected and none
stands, switches count once more, even behind `--`. -/
def Command.read? (arguments : List String) : Option Command := do
  let g ← readSwitches arguments
  Command.instead? g <|> match g.rest with
    | [] => none
    | name :: more =>
      if commandNames.contains name then Command.ofArguments? name more
      else do Command.instead? (← readSwitches g.rest)

end LayeredConfig.CommandLine
