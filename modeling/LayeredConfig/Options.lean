import LayeredConfig.Fault
import LayeredConfig.Grammar.Basic

/-!
# Options

Everything a caller can choose about loading. Each builder changes one choice.
-/

namespace LayeredConfig

/-- What happens to a placeholder without value and default: it stays, or it is an error. -/
inductive ResolveMode where
  | strict
  | lenient
  deriving DecidableEq, Repr

def ResolveMode.name : ResolveMode → String
  | .strict => "strict"
  | .lenient => "lenient"

def ResolveMode.ofName? (text : String) : Option ResolveMode :=
  [ResolveMode.strict, .lenient].find? (·.name = text)

structure Options where
  format : Format := none
  placeholders : Bool := true
  mode : ResolveMode := .lenient
  baseName : String := "config"
  /-- The environment variable that replaces the list of profiles; empty for none. -/
  profileVariable : String := "YODEL_PROFILES"
  profiles : List String := []
  deriving DecidableEq, Repr

namespace Options

instance : Inhabited Options := ⟨{}⟩

def isStrict (o : Options) : Bool := o.mode = .strict

def withFormat (o : Options) (text : String) : Except Fault Options :=
  match Format.ofName? text with
  | some format => .ok { o with format }
  | none => .error (.unknownFormat (Text.quote text))

def withPlaceholders (o : Options) (placeholders : Bool) : Options := { o with placeholders }

def withMode (o : Options) (text : String) : Except Fault Options :=
  match ResolveMode.ofName? text with
  | some mode => .ok { o with mode }
  | none => .error (.unknownMode (Text.quote text))

def withBaseName (o : Options) (baseName : String) : Except Fault Options :=
  if baseName.isEmpty then .error .emptyBaseName else .ok { o with baseName }

def withProfileVariable (o : Options) (profileVariable : String) : Options :=
  { o with profileVariable }

/-- Their order is the order of merging. -/
def withProfiles (o : Options) (profiles : List String) : Options := { o with profiles }

end Options

end LayeredConfig
