import LayeredConfig.Text.Lowercase
import LayeredConfig.Text.Scan

/-!
# Command-line arguments

Options start with two hyphens and may stand anywhere among the other arguments. An option is a
switch, perhaps with a second name that turns it off, or takes a value: the next argument whatever
it looks like, or what follows an equals sign. Behind `--` nothing is an option. Where an option
is repeated its last use counts, unless all its values are asked for.
-/

namespace LayeredConfig.CommandLine

/-- An option under its name: a switch with names that turn it off, or one that takes a value. -/
inductive Declared where
  | switch (on : String) (off : List String)
  | value (name : String)
  deriving DecidableEq, Repr

structure Given where
  switches : List (String × Bool) := []
  values : List (String × String) := []
  rest : List String := []
  deriving DecidableEq, Repr

namespace Given

def isOn (g : Given) (name : String) (default : Bool) : Bool :=
  (g.switches.reverse.lookup name).getD default

def all (g : Given) (name : String) : List String :=
  g.values.filterMap fun v => if v.1 = name then some v.2 else none

def value? (g : Given) (name : String) : Option String := (g.all name).getLast?

end Given

/-- What one argument says by itself. -/
inductive Word where
  | unknown
  | switch (name : String) (on : Bool)
  | value (name text : String)
  /-- An option whose value is the next argument. -/
  | open (name : String)

def find? (declared : List Declared) (name : String) : Option (Declared × Bool) :=
  declared.findSome? fun d =>
    match d with
    | .value n => if n = name then some (d, true) else none
    | .switch on off =>
      if on = name then some (d, true) else if off.contains name then some (d, false) else none

/-- The switch that every command has; it is the only one with a short name. -/
def helpName : String := "--help"

def readLong (declared : List Declared) (argument : String) : Word :=
  let (name, text) := Text.cut '=' argument.toList
  match find? declared (String.ofList name), text with
  | some (.switch name _, on), none => .switch name on
  | some (.value name, _), some text => .value name (String.ofList text)
  | some (.value name, _), none => .open name
  | _, _ => .unknown

def readWord (declared : List Declared) (argument : String) : Word :=
  match argument.toList with
  | '-' :: '-' :: _ => readLong declared argument
  | _ :: letters => if letters.all (· = 'h') then .switch helpName true else .unknown
  | [] => .unknown

/-- A lone hyphen is no option. -/
def isOption (argument : String) : Bool :=
  argument.toList.head? = some '-' && 1 < argument.length

/-- Reads the arguments of a command. Unless `anywhere` holds, options end at the first argument
that is none. -/
def readArguments (declared : List Declared) (anywhere : Bool) : List String → Option Given
  | [] => some {}
  | argument :: more =>
    if argument = "--" then some { rest := more }
    else if isOption argument then
      match readWord declared argument, more with
      | .unknown, _ => none
      | .switch name on, more =>
        (readArguments declared anywhere more).map fun g =>
          { g with switches := (name, on) :: g.switches }
      | .value name text, more =>
        (readArguments declared anywhere more).map fun g =>
          { g with values := (name, text) :: g.values }
      | .open _, [] => none
      | .open name, text :: more =>
        (readArguments declared anywhere more).map fun g =>
          { g with values := (name, text) :: g.values }
    else if anywhere then
      (readArguments declared anywhere more).map fun g => { g with rest := argument :: g.rest }
    else some { rest := argument :: more }

/-- The small letters that a letter stands for where case does not matter, as far as these may be
ASCII. -/
def foldChar : Char → List Char
  | 'ſ' => ['s']
  | 'ß' | 'ẞ' => ['s', 's']
  | 'ﬀ' => ['f', 'f']
  | 'ﬁ' => ['f', 'i']
  | 'ﬂ' => ['f', 'l']
  | 'ﬅ' | 'ﬆ' => ['s', 't']
  | c => [Text.lowerChar c]

/-- The choice that a text names, in any case. -/
def choose? (choices : List String) (text : String) : Option String :=
  choices.find? (·.toList = text.toList.flatMap foldChar)

end LayeredConfig.CommandLine
