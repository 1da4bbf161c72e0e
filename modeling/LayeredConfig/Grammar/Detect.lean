import LayeredConfig.FilePath
import LayeredConfig.Journal
import LayeredConfig.Options
import LayeredConfig.Text.Blank
import LayeredConfig.Text.Lines

/-!
# Detecting the grammar

The grammar of a text is the chosen one, or else the first that claims the extension of its path,
or else the first that claims its content. Content is judged by its look alone.
-/

namespace LayeredConfig

namespace Grammar

def extensions : Grammar → List String
  | .json => ["json"]
  | .toml => ["toml", "tml"]
  | .yaml => ["yaml", "yml"]

def claimsExtension (g : Grammar) (extension : String) : Bool :=
  g.extensions.contains extension

/-- A line such as `key: value` that is no comment. -/
def isMappingLine (line : List Char) : Bool :=
  match Text.trim line with
  | [] => false
  | '#' :: _ => false
  | text => Text.mentions ": ".toList text || text.getLast? = some ':'

def startsDocument (text : List Char) : Bool := "---".toList.isPrefixOf text

/-- Whether a text looks like one in the grammar. -/
def claimsText (g : Grammar) (text : List Char) : Bool :=
  let start := Text.trimStart text
  match g with
  | .toml => text.contains '=' && !Text.mentions ": ".toList text && !startsDocument start
  | .json => start.head? = some '{' || start.head? = some '['
  | .yaml => startsDocument start || "- ".toList.isPrefixOf start ||
    (Text.lines start).any isMappingLine

/-- All grammars, in the order in which they are asked about a text. -/
def all : List Grammar := [.toml, .json, .yaml]

def extensionsOf (grammars : List Grammar) : List String := grammars.flatMap extensions

end Grammar

/-- The first verdict of the grammars asked: all on the extension, then all on the content. -/
def Format.guess (asked : List Grammar) (content : String) (path : Option String) : Format :=
  let extension := path.bind fun p => (FilePath.read p).extension?
  (extension.bind fun e => asked.find? (·.claimsExtension e)) <|>
    asked.find? (·.claimsText content.toList)

/-- The chosen grammar, which needs no guess, or a guess, which is reported. -/
def Format.detect (options : Options) (asked : List Grammar) (content : String)
    (path : Option String) : Run Format := do
  match options.format with
  | some g => return some g
  | none =>
    let verdict := Format.guess asked content path
    Run.report .debug "format_detected" "detect" path [("format", .str verdict.name)]
    return verdict

end LayeredConfig
