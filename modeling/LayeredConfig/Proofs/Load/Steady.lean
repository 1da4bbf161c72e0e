import LayeredConfig.FileSystem.Disk
import LayeredConfig.Load
import LayeredConfig.Proofs.Outcome

/-!
# Loads are steady

No stage of a load looks at what was recorded before it, so `load_steady`: how a load ends depends
on the loader and the source alone.
-/

namespace LayeredConfig

open Run

-- ---------------------------------------------------------------------------
-- Stages
-- ---------------------------------------------------------------------------

theorem FileSystem.fetch_steady (fs : FileSystem) (path : String) : (fs.fetch path).Steady :=
  (Steady.modify _).bind fun _ => Steady.ofExcept _

theorem Format.detect_steady (options : Options) (asked : List Grammar) (content : String)
    (path : Option String) : (Format.detect options asked content path).Steady := by
  unfold Format.detect
  split
  · exact Steady.pure _
  · exact (Steady.report _ _ _ _ _).bind fun _ => Steady.pure _

theorem Placeholder.resolve_steady (text : String) (options : Options)
    (environment : Environment) : (Placeholder.resolve text options environment).Steady := by
  unfold Placeholder.resolve
  split
  · exact Steady.pure _
  · split
    · split
      · exact (Steady.report _ _ _ _ _).bind fun _ => Steady.pure _
      · exact Steady.pure _
    · split
      · exact (Steady.report _ _ _ _ _).bind fun _ => Steady.throw _
      · exact Steady.throw _

theorem Grammar.refuse_steady {α : Type} (g : Grammar) (message : Text) (e : ConfigError) :
    (g.refuse message e : Run α).Steady :=
  (Steady.report _ _ _ _ _).bind fun _ => Steady.throw _

theorem Grammar.fail_steady {α : Type} (g : Grammar) (r : Refusal) :
    (g.fail r : Run α).Steady := by
  cases r with
  | malformed location message => exact g.refuse_steady _ _
  | duplicateKey key => exact (Steady.ofExcept _).bind fun _ => g.refuse_steady _ _
  | fault f => exact Steady.throw _

theorem Grammar.parse_steady (g : Grammar) (text : String) : (g.parse text).Steady := by
  unfold Grammar.parse
  split
  · exact Steady.pure _
  · split
    · exact g.fail_steady _
    · exact (Steady.ofExcept _).bind fun _ => (Steady.report _ _ _ _ _).bind fun _ => Steady.pure _

theorem Discovery.select_steady (directory : String) (listing : List String) (options : Options)
    (environment : Environment) (extensions : List String) :
    (Discovery.select directory listing options environment extensions).Steady :=
  (Steady.ofExcept _).bind fun _ => (Steady.report _ _ _ _ _).bind fun _ => Steady.pure _

-- ---------------------------------------------------------------------------
-- Loads
-- ---------------------------------------------------------------------------

namespace Loader

variable (l : Loader)

theorem parse_steady (format : Format) (content : String) (path : Option String) :
    (l.parse format content path).Steady := by
  unfold Loader.parse
  split
  · exact Steady.throw _
  · split
    · exact Grammar.parse_steady _ _
    · exact Steady.throw _

theorem readText_steady (content : String) (path : Option String) :
    (l.readText content path).Steady :=
  (Format.detect_steady _ _ _ _).bind fun _ =>
    (Placeholder.resolve_steady _ _ _).bind fun _ => l.parse_steady _ _ _

theorem readDocument_steady (content : String) (path : Option String) :
    (l.readDocument content path).Steady :=
  (l.readText_steady _ _).bind fun _ => Steady.ofExcept _

theorem readLayer_steady (path : String) : (l.readLayer path).Steady :=
  (l.fileSystem.fetch_steady _).bind fun _ => l.readDocument_steady _ _

theorem readLayers_steady (files : List ConfigFile) : (l.readLayers files).Steady := by
  induction files with
  | nil => exact Steady.pure _
  | cons file rest ih =>
    exact (l.readLayer_steady _).bind fun _ => (Steady.report _ _ _ _ _).bind fun _ =>
      ih.bind fun _ => Steady.pure _

theorem loadFile_steady (path : String) : (l.loadFile path).Steady :=
  (l.readLayer_steady _).bind fun _ => (Steady.report _ _ _ _ _).bind fun _ => Steady.pure _

theorem loadDirectory_steady (directory : String) : (l.loadDirectory directory).Steady :=
  (Steady.ofExcept _).bind fun _ => (Discovery.select_steady _ _ _ _ _).bind fun _ =>
    (l.readLayers_steady _).bind fun _ => (Steady.ofExcept _).bind fun _ =>
      (Steady.report _ _ _ _ _).bind fun _ => (Steady.report _ _ _ _ _).bind fun _ => Steady.pure _

theorem loadContent_steady (content : String) : (l.loadContent content).Steady :=
  ((l.readDocument_steady _ _).tryCatch fun _ => Steady.throw _).bind fun _ =>
    (Steady.report _ _ _ _ _).bind fun _ => Steady.pure _

/-- A load once the trace of an earlier one is unbound. -/
def unboundLoad (l : Loader) : Source → Run Context
  | .path path =>
    if l.fileSystem.isDirectory path then l.loadDirectory path
    else if l.fileSystem.isFile path then l.loadFile path
    else throw (.config (.notFound path))
  | .text content =>
    if Text.isBlankText content then throw (.config (.emptyConfig none))
    else if mayBePath content && l.fileSystem.isDirectory content then l.loadDirectory content
    else if mayBePath content && l.fileSystem.isFile content then l.loadFile content
    else l.loadContent content

theorem load_eq (source : Source) :
    l.load source = (do Run.bindTrace none; l.unboundLoad source) := by
  cases source <;> rfl

theorem unboundLoad_steady (source : Source) : (l.unboundLoad source).Steady := by
  unfold unboundLoad
  split
  · split
    · exact l.loadDirectory_steady _
    · split
      · exact l.loadFile_steady _
      · exact Steady.throw _
  · split
    · exact Steady.throw _
    · split
      · exact l.loadDirectory_steady _
      · split
        · exact l.loadFile_steady _
        · exact l.loadContent_steady _

theorem load_steady (source : Source) : (l.load source).Steady := by
  rw [load_eq]
  exact (Steady.bindTrace _).bind fun _ => l.unboundLoad_steady source

theorem outcome_load (source : Source) (j : Journal) :
    ((l.load source).start j).1 = ((l.unboundLoad source).start j).1 := by
  rw [load_eq]
  exact outcome_bind (fun _ => l.unboundLoad_steady source) j j

end Loader

-- ---------------------------------------------------------------------------
-- Texts alone
-- ---------------------------------------------------------------------------

def textLoader : Loader where
  fileSystem := Disk.fileSystem { workingDirectory := [] } .utf8
  environment := .empty

def Context.ofText (text : String) : Except Failure Context :=
  ((textLoader.load (.text text)).start {}).1

end LayeredConfig
