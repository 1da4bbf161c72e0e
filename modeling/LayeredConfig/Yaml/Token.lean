import LayeredConfig.Yaml.Cursor

/-!
# YAML: tokens

The marks, names and scalars of a text, each with the place where it starts and where it ends. The
start and the end of a block, which only indentation shows, are tokens too.
-/

namespace LayeredConfig.Yaml

inductive Directive where
  | version (major minor : Nat)
  | handle (handle tagStart : String)
  | other (name : String)
  deriving DecidableEq, Repr

inductive Symbol where
  | streamStart
  | streamEnd
  | directive (value : Directive)
  | documentStart
  | documentEnd
  | blockSequenceStart
  | blockMappingStart
  | blockEnd
  | flowSequenceStart
  | flowMappingStart
  | flowSequenceEnd
  | flowMappingEnd
  | key
  | value
  | blockEntry
  | flowEntry
  | alias (name : String)
  | anchor (name : String)
  | tag (handle : Option String) (suffix : String)
  | scalar (text : Text) (isPlain : Bool)
  deriving DecidableEq, Repr

def Symbol.shown : Symbol → String
  | .streamStart => "<stream start>"
  | .streamEnd => "<stream end>"
  | .directive _ => "<directive>"
  | .documentStart => "<document start>"
  | .documentEnd => "<document end>"
  | .blockSequenceStart => "<block sequence start>"
  | .blockMappingStart => "<block mapping start>"
  | .blockEnd => "<block end>"
  | .flowSequenceStart => "["
  | .flowMappingStart => "\x7b"
  | .flowSequenceEnd => "]"
  | .flowMappingEnd => "\x7d"
  | .key => "?"
  | .value => ":"
  | .blockEntry => "-"
  | .flowEntry => ","
  | .alias _ => "<alias>"
  | .anchor _ => "<anchor>"
  | .tag .. => "<tag>"
  | .scalar .. => "<scalar>"

structure Token where
  symbol : Symbol
  start : Location
  stop : Location
  deriving DecidableEq, Repr

def Token.at (symbol : Symbol) (place : Location) : Token := ⟨symbol, place, place⟩

end LayeredConfig.Yaml
