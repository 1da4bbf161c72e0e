import LayeredConfig.Proofs.Discovery.Select
import LayeredConfig.Proofs.Load.Steady

/-!
# Loading a directory

`load_directory`: a directory loads as its selected files do one by one. The first failure is that
of the directory; otherwise the contexts are laid over each other, each under the profile of its
file, and what comes out has to describe a document.
-/

namespace LayeredConfig

open Run

-- ---------------------------------------------------------------------------
-- Contexts over contexts
-- ---------------------------------------------------------------------------

namespace Context

/-- One context over another. -/
def merge (c d : Context) : Context := ⟨c.tree.merge d.tree, c.origins.merge d.origins⟩

def under (profile : Option String) (c : Context) : Context :=
  ⟨c.tree, c.origins.mapValues fun o => { o with profile }⟩

theorem ofLayer_under (profile : Option String) (tree : Tree Leaf) (path : Option String) :
    (ofLayer ⟨none, tree, path⟩).under profile = ofLayer ⟨profile, tree, path⟩ := by
  simp only [under, ofLayer, Layer.origins, OrderedMap.mapValues_ofList, List.map_map]
  rfl

theorem ofLayers_eq (layers : List Layer) :
    ofLayers layers = (layers.map ofLayer).foldl merge empty := by
  rw [List.foldl_map]
  rfl

end Context

namespace Loader

variable {l : Loader} {directory path : String} {source : Source} {files : List ConfigFile}

-- ---------------------------------------------------------------------------
-- One file
-- ---------------------------------------------------------------------------

theorem outcome_loadFile (j : Journal) :
    ((l.loadFile path).start j).1 = do
      return Context.ofLayer ⟨none, ← ((l.readLayer path).start j).1, some path⟩ :=
  outcome_bind (fun _ => (Steady.report _ _ _ _ _).bind fun _ => Steady.pure _) j j

/-- A regular file, as opposed to a directory or something that is not there. -/
def IsRegular (l : Loader) (path : String) : Prop :=
  l.fileSystem.isDirectory path = false ∧ l.fileSystem.isFile path = true

theorem outcome_load_file (h : l.IsRegular path) (j : Journal) :
    ((l.load (.path path)).start j).1 = ((l.loadFile path).start j).1 := by
  rw [outcome_load, unboundLoad]
  simp only [h.1, h.2, Bool.false_eq_true, if_false, if_true]

-- ---------------------------------------------------------------------------
-- The files of a directory
-- ---------------------------------------------------------------------------

def discover (l : Loader) (directory : String) : Run (List ConfigFile) := do
  let listing ← Run.ofExcept (l.fileSystem.list directory)
  Discovery.select directory listing l.options l.environment (Grammar.extensionsOf l.grammars)

theorem discover_steady (directory : String) : (l.discover directory).Steady :=
  (Steady.ofExcept _).bind fun _ => Discovery.select_steady _ _ _ _ _

theorem discover_ok (h : (l.discover directory).Returns files) :
    ∃ listing, l.fileSystem.list directory = .ok listing ∧ ∀ file ∈ files, file.path ∈ listing := by
  obtain ⟨listing, hl, h⟩ := h.bind
  refine ⟨listing, returns_ofExcept.1 hl, fun file hfile => ?_⟩
  exact (((Discovery.select_ok h file hfile).2 file.path).2 rfl).1

def single (l : Loader) (j : Journal) (file : ConfigFile) : Except Failure Context := do
  return (← ((l.load (.path file.path)).start j).1).under file.slot.profile?

theorem single_eq {file : ConfigFile} (h : l.IsRegular file.path) (j : Journal) :
    l.single j file = do
      return Context.ofLayer
        ⟨file.slot.profile?, ← ((l.readLayer file.path).start j).1, some file.path⟩ := by
  rw [single, outcome_load_file h, outcome_loadFile]
  cases ((l.readLayer file.path).start j).1 with
  | error e => rfl
  | ok tree => exact congrArg Except.ok (Context.ofLayer_under _ _ _)

theorem outcome_readLayers_cons (file : ConfigFile) (rest : List ConfigFile) (j : Journal) :
    ((l.readLayers (file :: rest)).start j).1 = do
      let tree ← ((l.readLayer file.path).start j).1
      let later ← ((l.readLayers rest).start j).1
      return ⟨file.slot.profile?, tree, some file.path⟩ :: later := by
  have hcons (f : List Layer → List Layer) :
      (l.readLayers rest >>= fun later => pure (f later)).Steady :=
    (l.readLayers_steady rest).bind fun _ => Steady.pure _
  rw [readLayers, outcome_bind (fun _ => (Steady.report _ _ _ _ _).bind fun _ => hcons _) j j]
  congr 1
  funext tree
  rw [outcome_report (hcons _)]
  exact outcome_bind (fun _ => Steady.pure _) j j

def layer (l : Loader) (j : Journal) (file : ConfigFile) : Except Failure Layer := do
  return ⟨file.slot.profile?, ← ((l.readLayer file.path).start j).1, some file.path⟩

theorem outcome_readLayers_mapM (files : List ConfigFile) (j : Journal) :
    ((l.readLayers files).start j).1 = files.mapM (l.layer j) := by
  induction files with
  | nil => rfl
  | cons file rest ih =>
    rw [List.mapM_cons, ← ih, outcome_readLayers_cons, layer]
    cases ((l.readLayer file.path).start j).1 <;> rfl

/-- Reading the files as layers is loading them one by one. -/
theorem outcome_readLayers (h : ∀ file ∈ files, l.IsRegular file.path) (j : Journal) :
    ((l.readLayers files).start j).1.map (·.map Context.ofLayer) = files.mapM (l.single j) := by
  -- the first file decides alone: both sides fail with its failure or go on with the rest
  induction files with
  | nil => rfl
  | cons file rest ih =>
    rw [List.mapM_cons, single_eq (h file List.mem_cons_self),
      ← ih fun f hf => h f (List.mem_cons_of_mem _ hf), outcome_readLayers_cons]
    cases ((l.readLayer file.path).start j).1 with
    | error e => rfl
    | ok tree => cases ((l.readLayers rest).start j).1 <;> rfl

-- ---------------------------------------------------------------------------
-- The whole directory
-- ---------------------------------------------------------------------------

/-- What is left to do when the layers of a directory are read. -/
def finish (directory : String) (layers : List Layer) : Run Context := do
  let c := Context.ofLayers layers
  let _ ← Run.ofExcept ((Tree.validate c.tree (some directory)).mapError Failure.config)
  Run.report .info "configuration_merged" "merge" (some directory)
    [("layers", .int layers.length), ("leaves", .int c.tree.size)]
  reportLoaded (some directory) c layers.length
  return c

theorem loadDirectory_eq :
    l.loadDirectory directory =
      (do finish directory (← l.readLayers (← l.discover directory))) := by
  unfold loadDirectory discover
  rw [bind_assoc]
  rfl

theorem finish_steady (layers : List Layer) : (finish directory layers).Steady :=
  (Steady.ofExcept _).bind fun _ => (Steady.report _ _ _ _ _).bind fun _ =>
    (Steady.report _ _ _ _ _).bind fun _ => Steady.pure _

/-- Contexts laid over each other, the first at the bottom, if they describe a document. -/
def combine (directory : String) (contexts : List Context) : Except Failure Context := do
  let c := contexts.foldl Context.merge Context.empty
  let _ ← (Tree.validate c.tree (some directory)).mapError Failure.config
  return c

theorem outcome_finish (layers : List Layer) (j : Journal) :
    ((finish directory layers).start j).1 = combine directory (layers.map Context.ofLayer) := by
  rw [combine, ← Context.ofLayers_eq]
  exact outcome_bind (fun _ => (Steady.report _ _ _ _ _).bind fun _ =>
    (Steady.report _ _ _ _ _).bind fun _ => Steady.pure _) j j

theorem outcome_loadDirectory
    (h : ∀ listing, l.fileSystem.list directory = .ok listing → ∀ path ∈ listing, l.IsRegular path)
    (j : Journal) :
    ((l.loadDirectory directory).start j).1 =
      (do combine directory (← (← ((l.discover directory).start j).1).mapM (l.single j))) := by
  rw [loadDirectory_eq,
    outcome_bind (fun files => (l.readLayers_steady files).bind fun _ => finish_steady _) j j]
  cases hfiles : ((l.discover directory).start j).1 with
  | error e => rfl
  | ok files =>
    obtain ⟨listing, hlist, hmem⟩ := discover_ok ⟨j, hfiles⟩
    have hregular : ∀ file ∈ files, l.IsRegular file.path := fun file hfile =>
      h listing hlist file.path (hmem file hfile)
    change ((l.readLayers files >>= finish directory).start j).1 =
      files.mapM (l.single j) >>= combine directory
    rw [outcome_bind finish_steady j j, ← outcome_readLayers hregular]
    cases ((l.readLayers files).start j).1 with
    | error e => rfl
    | ok layers => exact outcome_finish layers j

end Loader

-- ---------------------------------------------------------------------------
-- Sources that lead to a directory
-- ---------------------------------------------------------------------------

/-- The source is this directory: a path to it, or a text that is looked up and names it. -/
def Loader.Opens (l : Loader) (directory : String) : Source → Prop
  | .path path => path = directory ∧ l.fileSystem.isDirectory path = true
  | .text content => content = directory ∧ Text.isBlankText content = false ∧
      Loader.mayBePath content = true ∧ l.fileSystem.isDirectory content = true

theorem Loader.unboundLoad_of_opens {l : Loader} {directory : String} {source : Source}
    (h : l.Opens directory source) : l.unboundLoad source = l.loadDirectory directory := by
  cases source with
  | path path =>
    obtain ⟨rfl, hd⟩ := h
    exact if_pos hd
  | text content =>
    obtain ⟨rfl, hb, hp, hd⟩ := h
    simp only [unboundLoad, hb, hp, hd, Bool.false_eq_true, Bool.and_self, if_false, if_true]

theorem Loader.outcome_load_opens {l : Loader} {directory : String} {source : Source}
    (h : l.Opens directory source) (j : Journal) :
    ((l.load source).start j).1 = ((l.loadDirectory directory).start j).1 := by
  rw [outcome_load, unboundLoad_of_opens h]

/-- A directory, all of whose listed paths are files, loads as the files that are discovered in it
do one by one, in their order and each as a path. The first failure ends it: that of the discovery,
or of a file. Otherwise the contexts are merged from the empty one on, each under the profile of its
file, and the outcome is that context unless its tree is refused for the directory. -/
theorem load_directory {l : Loader} {directory : String} {source : Source}
    (hopens : l.Opens directory source)
    (hregular : ∀ listing, l.fileSystem.list directory = .ok listing →
      ∀ path ∈ listing, l.IsRegular path) (j : Journal) :
    ((l.load source).start j).1 = (do
      let files ← ((l.discover directory).start j).1
      let singles ← files.mapM fun file => do
        let alone ← ((l.load (.path file.path)).start j).1
        return alone.under file.slot.profile?
      let c := singles.foldl Context.merge Context.empty
      let _ ← (Tree.validate c.tree (some directory)).mapError Failure.config
      return c) := by
  rw [Loader.outcome_load_opens hopens, Loader.outcome_loadDirectory hregular]
  rfl

/-- A directory with a base file and an overlay. -/
def overlaidFiles : FileSystem where
  isDirectory path := path = "d"
  isFile path := path = "d/config.toml" || path = "d/config-dev.toml"
  read path := ⟨.ok (if path = "d/config.toml" then "a = 1\nb = 1\n" else "b = 2\n"), []⟩
  list _ := .ok ["d/config.toml", "d/config-dev.toml"]

theorem load_directory_overlaid :
    let l : Loader :=
      { fileSystem := overlaidFiles, environment := .empty, options := { profiles := ["dev"] } }
    ((l.load (.path "d")).start {}).1 =
      (do Loader.combine "d" (← (← ((l.discover "d").start {}).1).mapM (l.single {}))) := by
  intro l
  have hfiles : ∀ path ∈ ["d/config.toml", "d/config-dev.toml"],
      l.fileSystem.isDirectory path = false ∧ l.fileSystem.isFile path = true := by
    decide
  have hopens : l.Opens "d" (.path "d") := ⟨rfl, rfl⟩
  refine load_directory hopens (fun listing h => ?_) {}
  cases h
  exact hfiles

end LayeredConfig
