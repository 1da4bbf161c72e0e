import LayeredConfig.Grammar.Basic
import LayeredConfig.Journal
import LayeredConfig.Json.Read
import LayeredConfig.Text.Blank
import LayeredConfig.Toml.Read
import LayeredConfig.Tree.Flatten
import LayeredConfig.Yaml.Value

/-!
# Reading configurations

Reads a text by its grammar into a tree of leaves and reports the outcome. A blank text is an empty
tree in every grammar.
-/

namespace LayeredConfig

namespace Grammar

/-- The tree that a text describes. The outer failure is a refusal of the text, the inner one a
value that no configuration holds. -/
def read (g : Grammar) (text : String) : Except Refusal (Except Failure (Tree Leaf)) :=
  match g with
  | .json => (Json.read text).map Document.flatten
  | .toml => (Toml.read text).map Document.flatten
  | .yaml => (Yaml.read text).map Graph.flatten

def refuse {α : Type} (g : Grammar) (message : Text) (e : ConfigError) : Run α := do
  Run.report .error "config_invalid" "parse" none
    [("format", .str g.name), ("error", .str message)]
  throw (.config e)

def fail {α : Type} (g : Grammar) : Refusal → Run α
  | .malformed location message =>
    g.refuse message <| .invalidSyntax g.name (location.map (·.line)) (location.map (·.column))
      message
  | .duplicateKey key => do
    let shown ← Run.ofExcept (key.plainText.mapError Failure.fault)
    let message := "duplicate key '" ++ shown ++ "' in " ++ g.name ++ " document"
    g.refuse message (.invalidStructure message)
  | .fault f => throw (.fault f)

def parse (g : Grammar) (text : String) : Run (Tree Leaf) := do
  if Text.isBlankText text then return OrderedMap.empty
  match g.read text with
  | .error r => g.fail r
  | .ok tree =>
    let tree ← Run.ofExcept tree
    Run.report .debug "config_parsed" "parse" none
      [("format", .str g.name), ("leaves", .int tree.size)]
    return tree

end Grammar

end LayeredConfig
