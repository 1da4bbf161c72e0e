/-!
# Grammars

The grammars of configuration texts.
-/

namespace LayeredConfig

inductive Grammar where
  | json
  | toml
  | yaml
  deriving DecidableEq, Repr

def Grammar.name : Grammar → String
  | .json => "json"
  | .toml => "toml"
  | .yaml => "yaml"

/-- The grammar of a text: named, or to be found out. -/
abbrev Format := Option Grammar

namespace Format

def auto : Format := none

def name : Format → String
  | none => "auto"
  | some g => g.name

def ofName? (text : String) : Option Format :=
  ([none, some .json, some .toml, some .yaml] : List Format).find? (·.name = text)

end Format

end LayeredConfig
