import LayeredConfig.Context.Layer
import LayeredConfig.Discovery.Select
import LayeredConfig.FileSystem.Basic
import LayeredConfig.Grammar.Detect
import LayeredConfig.Grammar.Parse
import LayeredConfig.Placeholder.Resolve

/-!
# Loading

A configuration comes from a text, a file or a directory. A text is read in three stages: its
grammar is detected as it stands, its placeholders are resolved, and the outcome is parsed. The
files of a directory are read one by one and laid over each other.
-/

namespace LayeredConfig

structure Loader where
  fileSystem : FileSystem
  environment : Environment
  options : Options := {}
  /-- The grammars that can be read. -/
  grammars : List Grammar := Grammar.all
  /-- The grammars asked about a text of unknown grammar, in this order. -/
  asked : List Grammar := Grammar.all

/-- What to load. A text is taken for a path only if something stands there. -/
inductive Source where
  | text (content : String)
  | path (path : String)
  deriving DecidableEq, Repr

namespace Loader

def parse (l : Loader) (format : Format) (content : String) (path : Option String) :
    Run (Tree Leaf) :=
  match format with
  | none => throw (.config (.unknownFormat path none))
  | some g =>
    if l.grammars.contains g then g.parse content
    else throw (.config (.unknownFormat path none))

def readText (l : Loader) (content : String) (path : Option String) : Run (Tree Leaf) := do
  let format ← Format.detect l.options l.asked content path
  let resolved ← Placeholder.resolve content l.options l.environment
  l.parse format resolved path

def readDocument (l : Loader) (content : String) (path : Option String) : Run (Tree Leaf) := do
  let tree ← l.readText content path
  Run.ofExcept ((Tree.validate tree path).mapError Failure.config)

def readLayer (l : Loader) (path : String) : Run (Tree Leaf) := do
  l.readDocument (← l.fileSystem.fetch path) (some path)

def reportLoaded (path : Option String) (c : Context) (layers : Nat) : Run Unit :=
  Run.report .info "configuration_loaded" "load" path
    [("leaves", .int c.tree.size), ("layers", .int layers)]

def loadFile (l : Loader) (path : String) : Run Context := do
  let c := Context.ofLayer ⟨none, ← l.readLayer path, some path⟩
  reportLoaded (some path) c 1
  return c

def readLayers (l : Loader) : List ConfigFile → Run (List Layer)
  | [] => return []
  | file :: rest => do
    let tree ← l.readLayer file.path
    Run.report .debug "layer_loaded" file.slot.label (some file.path) [("leaves", .int tree.size)]
    return ⟨file.slot.profile?, tree, some file.path⟩ :: (← l.readLayers rest)

def loadDirectory (l : Loader) (directory : String) : Run Context := do
  let listing ← Run.ofExcept (l.fileSystem.list directory)
  let files ← Discovery.select directory listing l.options l.environment
    (Grammar.extensionsOf l.grammars)
  let layers ← l.readLayers files
  let c := Context.ofLayers layers
  let _ ← Run.ofExcept ((Tree.validate c.tree (some directory)).mapError Failure.config)
  Run.report .info "configuration_merged" "merge" (some directory)
    [("layers", .int layers.length), ("leaves", .int c.tree.size)]
  reportLoaded (some directory) c layers.length
  return c

/-- A text with a line break or a NUL is never looked up as a path. -/
def mayBePath (content : String) : Bool :=
  !content.toList.contains '\n' && !content.toList.contains '\x00'

/-- A text that somebody may have meant as a path: it has a slash, or an extension of a grammar
that can be read, and no space inside. -/
def looksLikePath (l : Loader) (content : String) : Bool :=
  mayBePath content && !(Text.trim content.toList).contains ' ' &&
    (content.toList.contains '/' ||
      (Grammar.extensionsOf l.grammars).contains (((FilePath.read content).extension?).getD ""))

/-- The error of a text of unknown grammar, with a hint when it looks like a path. -/
def hinted (l : Loader) (content : String) : Failure → Failure
  | .config (.unknownFormat path hint) =>
    if l.looksLikePath content then
      .config (.unknownFormat none
        (some ("no file or directory named '" ++ content ++ "' exists")))
    else .config (.unknownFormat path hint)
  | e => e

def loadContent (l : Loader) (content : String) : Run Context := do
  let tree ← tryCatch (l.readDocument content none) fun e => throw (l.hinted content e)
  let c := Context.ofLayer ⟨none, tree, none⟩
  reportLoaded none c 1
  return c

/-- Loads a configuration. No trace of an earlier load stays bound. -/
def load (l : Loader) (source : Source) : Run Context := do
  Run.bindTrace none
  match source with
  | .path path =>
    if l.fileSystem.isDirectory path then l.loadDirectory path
    else if l.fileSystem.isFile path then l.loadFile path
    else throw (.config (.notFound path))
  | .text content =>
    if Text.isBlankText content then throw (.config (.emptyConfig none))
    else if mayBePath content && l.fileSystem.isDirectory content then l.loadDirectory content
    else if mayBePath content && l.fileSystem.isFile content then l.loadFile content
    else l.loadContent content

end Loader

end LayeredConfig
